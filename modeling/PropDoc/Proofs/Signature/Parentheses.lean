import PropDoc.Proofs.Signature.Flat

/-!
# Parentheses in types

A type in parentheses is read as the type that they enclose. Putting the enclosed type in the place
of the parentheses leaves the signature of the whole as it was, with one exception: a union that
loses its parentheses as a member of a union gives its alternatives to the union around it, which it
did not do before.
-/

namespace PropDoc

namespace Syntax

namespace Node

/-- The node as another field of its parent. -/
def withField (node : Node) (field : String) : Node := .mk { node.label with field } node.children

variable (node : Node) (field : String)

@[simp] theorem kind_withField : (node.withField field).kind = node.kind := rfl

@[simp] theorem field_withField : (node.withField field).field = field := rfl

@[simp] theorem named_withField : (node.withField field).named = node.named := rfl

@[simp] theorem children_withField : (node.withField field).children = node.children := rfl

@[simp] theorem text_withField (source : Source) :
    (node.withField field).text source = node.text source := rfl

/-- A pair of parentheses around a type, which is neither a parameter nor an annotation. -/
structure Encloses (paren inner : Node) : Prop where
  named : paren.named = true
  enclosed : paren.enclosed? = some inner
  parameter : inner.isParameter = false
  clause : inner.isTypeClause = false

end Node

end Syntax

open PropDoc.Syntax

namespace Signature

namespace Reading

variable {source : Source} {paren inner node : Node} {field : String}

private theorem type_withField (source : Source) (node : Node) (field : String) :
    (ofNode source (node.withField field)).type = (ofNode source node).type := by
  rw [type_ofNode, type_ofNode, typeOf, typeOf]
  simp only [Node.kind_withField, Node.text_withField, below, Node.children_withField]

private theorem alternatives_withField (source : Source) (node : Node) (field : String) :
    (ofNode source (node.withField field)).alternatives = (ofNode source node).alternatives := by
  have htype := type_withField source node field
  by_cases hkind : node.kind = "union_type"
  · have hkind' : (node.withField field).kind = "union_type" := hkind
    rw [type_of_union hkind, type_of_union hkind'] at htype
    exact Signature.union.inj htype
  · have hkind' : (node.withField field).kind ≠ "union_type" := hkind
    rw [alternatives_of_ne_union hkind, alternatives_of_ne_union hkind', htype]

end Reading

variable {source : Source} {paren inner : Node} {role : Role} {frames : List Frame}

/-- To a parent, the enclosed type looks as the parentheses do. -/
theorem SameFace.of_encloses (h : paren.Encloses inner) :
    SameFace paren (inner.withField paren.field) := by
  have hkind : paren.kind = "parenthesized_type" := (Node.enclosed?_eq_some_iff.mp h.enclosed).1
  have hinner : inner.named = true ∧ inner.isComment = false := by
    simpa [Node.isPart] using (Node.mem_of_enclosed? h.enclosed).2
  have hparameter := h.parameter
  simp only [Node.isComment, Node.isParameter] at hinner hparameter
  constructor <;>
    simp [Node.isComment, Node.isParameter, hkind, h.named, hinner, hparameter]

private theorem singleton_union_ne (elements : List Signature) : [.union elements] ≠ elements := by
  intro h
  have hsize := congrArg sizeOf h
  simp at hsize
  omega

/-- As a type, parentheses are read as what they enclose, unless they keep a union apart from a
union around them. -/
theorem Role.agree_enclosed_iff (h : paren.Encloses inner) (hrole : role.isType = true) :
    role.Agree source (Reading.ofNode source paren)
        (Reading.ofNode source (inner.withField paren.field)) ↔
      (role = .alternative → inner.kind ≠ "union_type") := by
  have hkind : paren.kind = "parenthesized_type" := (Node.enclosed?_eq_some_iff.mp h.enclosed).1
  have htype : (Reading.ofNode source paren).type = (Reading.ofNode source inner).type :=
    Reading.type_of_enclosed? h.enclosed
  cases role with
  | type => simp [Role.Agree, Reading.type_withField, htype]
  | annotated =>
    have hclause : paren.isTypeClause = false := by simp [Node.isTypeClause, hkind]
    have hclause' : (inner.withField paren.field).isTypeClause = false := h.clause
    simp [Role.Agree, Reading.annotated_of_not_clause hclause,
      Reading.annotated_of_not_clause hclause', Reading.type_withField, htype]
  | alternative =>
    simp only [Role.Agree, Reading.alternatives_withField, forall_const]
    rw [Reading.alternatives_of_ne_union (by simp [hkind]), htype]
    by_cases hunion : inner.kind = "union_type"
    · simp [hunion, Reading.type_of_union hunion, singleton_union_ne]
    · simp [hunion, Reading.alternatives_of_ne_union hunion]
  | parameters => cases hrole
  | parameter => cases hrole
  | labelled => cases hrole
  | member => cases hrole

/-- Taking parentheses away changes the signature of the whole exactly if they keep a union apart
from a union around them in a place that is read. -/
theorem ofNode_enclosed_iff (h : paren.Encloses inner) (hstands : Stands .type frames paren role)
    (hrole : role.isType = true) :
    ofNode source (Frame.plugAll frames (inner.withField paren.field)) =
        ofNode source (Frame.plugAll frames paren) ↔
      (Kept source frames paren → role = .alternative → inner.kind ≠ "union_type") := by
  rw [← Role.agree_enclosed_iff h hrole, ← Reading.agree_plugAll_iff hstands (.of_encloses h),
    eq_comm]
  rfl

/-- How parentheses bear on a signature. Putting the type that they enclose in their place leaves
the signature as it was, unless they enclose a union, are a member of a union and are read. The
elements of a union are its alternatives in source order. And no union has a union among its
elements, at any depth, exactly if no union in parentheses is read as a member of a union. -/
theorem ofNode_parenthesized (source : Source) :
    (∀ {frames : List Frame} {paren inner : Node} {role : Role}, paren.Encloses inner →
      Stands .type frames paren role → role.isType = true →
        (ofNode source (Frame.plugAll frames (inner.withField paren.field)) =
            ofNode source (Frame.plugAll frames paren) ↔
          ¬ (role = .alternative ∧ inner.kind = "union_type" ∧ Kept source frames paren))) ∧
    (∀ {node : Node}, node.kind = "union_type" →
      ofNode source node = .union (node.alternatives.map (ofNode source))) ∧
    ∀ {node : Node}, node.ListsParameters →
      ((ofNode source node).Flat ↔
        ∀ frames hole, node = Frame.plugAll frames hole → Stands .type frames hole .alternative →
          Kept source frames hole → ¬ hole.WrapsUnion) := by
  refine ⟨fun h hstands hrole ↦ ?_, fun hkind ↦ ?_, fun hlists ↦ ?_⟩
  · rw [ofNode_enclosed_iff h hstands hrole]
    tauto
  · rw [← Reading.alternatives_ofNode]
    exact Reading.type_of_union hkind
  · change Role.type.Flat (Reading.ofNode source _) ↔ _
    exact Reading.flat_iff hlists trivial

/-! ### A union in parentheses -/

/-- A token at an offset. -/
def tokenAt (n : Nat) (text : String) : Node :=
  .mk { kind := text, named := false, start := n, stop := n + text.length } []

/-- A keyword type at an offset. -/
def keywordAt (n : Nat) (word : String) : Node :=
  .mk { kind := "predefined_type", start := n, stop := n + word.length } [tokenAt n word]

/-- The type `string | number` at an offset. -/
def pairAt (n : Nat) : Node :=
  .mk { kind := "union_type", start := n, stop := n + 15 } [
    keywordAt n "string", tokenAt (n + 7) "|", keywordAt (n + 9) "number"]

/-- The type `(string | number)` at an offset. -/
def wrappedPairAt (n : Nat) : Node :=
  .mk { kind := "parenthesized_type", start := n, stop := n + 17 } [
    tokenAt n "(", pairAt (n + 1), tokenAt (n + 16) ")"]

/-- The type `(string | number) | boolean` at an offset, with the first member to be put in. -/
def besideBooleanAt (n : Nat) : Frame where
  label := { kind := "union_type", start := n, stop := n + 27 }
  after := [tokenAt (n + 18) "|", keywordAt (n + 20) "boolean"]

/-- The nodes above the first member in the type `(x: (string | number) | boolean) => void` at an
offset. -/
def aboveMemberAt (n : Nat) : List Frame := [
  { label := { kind := "function_type", start := n, stop := n + 40 }
    after := [tokenAt (n + 33) "=>",
      .mk { kind := "predefined_type", field := "return_type", start := n + 36, stop := n + 40 }
        [tokenAt (n + 36) "void"]] },
  { label := { kind := "formal_parameters", field := "parameters", start := n, stop := n + 32 }
    before := [tokenAt n "("]
    after := [tokenAt (n + 31) ")"] },
  { label := { kind := "required_parameter", start := n + 1, stop := n + 31 }
    before := [
      .mk { kind := "identifier", field := "pattern", start := n + 1, stop := n + 2 } []] },
  { label := { kind := "type_annotation", field := "type", start := n + 2, stop := n + 31 }
    before := [tokenAt (n + 2) ":"] },
  besideBooleanAt (n + 4)]

/-- The type `(string | number)[]` at an offset, with the element to be put in. -/
def arrayAt (n : Nat) : Frame where
  label := { kind := "array_type", start := n, stop := n + 19 }
  after := [tokenAt (n + 17) "[", tokenAt (n + 18) "]"]

private theorem encloses_wrappedPairAt (n : Nat) : (wrappedPairAt n).Encloses (pairAt (n + 1)) :=
  ⟨rfl, rfl, rfl, rfl⟩

private theorem stands_besideBooleanAt {outer : Role} (n : Nat) (h : outer.isType = true) :
    Stands outer [besideBooleanAt n] (wrappedPairAt n) .alternative :=
  .inside (.ofType h (.alternative rfl rfl)) .here

private theorem stands_aboveMemberAt (n : Nat) :
    Stands .type (aboveMemberAt n) (wrappedPairAt (n + 4)) .alternative := by
  apply Stands.inside (.ofType rfl (.parameters rfl ⟨rfl, by simp⟩ rfl))
  apply Stands.inside (.parameter rfl rfl rfl)
  apply Stands.inside (.declared (.inl rfl) (.inl rfl) ⟨rfl, by simp [Node.field, Node.label]⟩)
  apply Stands.inside (.annotated rfl ⟨rfl, by simp [Node.isPart, Node.named, Node.label, tokenAt]⟩)
  exact stands_besideBooleanAt (n + 4) rfl

/-- A function type with a union in parentheses below it. -/
def parameterSource : Source := .ofString "let f: (x: (string | number) | boolean) => void;\n"

/-- Below a parameter of a function, the parentheses in a union count; around the element of an
array they do not. -/
theorem ofNode_parenthesized_parameter :
    Kept parameterSource (aboveMemberAt 7) (wrappedPairAt 11) ∧
    ofNode parameterSource (Frame.plugAll (aboveMemberAt 7) ((pairAt 12).withField "")) ≠
      ofNode parameterSource (Frame.plugAll (aboveMemberAt 7) (wrappedPairAt 11)) ∧
    ofNode parameterSource (Frame.plugAll [arrayAt 11] ((pairAt 12).withField "")) =
      ofNode parameterSource (Frame.plugAll [arrayAt 11] (wrappedPairAt 11)) ∧
    ofNode parameterSource (pairAt 12) = .union [.primitive .string, .primitive .number] ∧
    ¬ (ofNode parameterSource (Frame.plugAll (aboveMemberAt 7) (wrappedPairAt 11))).Flat := by
  obtain ⟨henclosed, hunion, hflat⟩ := ofNode_parenthesized parameterSource
  have hkept : Kept parameterSource (aboveMemberAt 7) (wrappedPairAt 11) :=
    ⟨rfl, rfl, rfl, rfl, rfl, trivial⟩
  have hcounts := henclosed (encloses_wrappedPairAt 11) (stands_aboveMemberAt 7) rfl
  have harray : Stands .type [arrayAt 11] (wrappedPairAt 11) .type :=
    .inside (.ofType rfl (.element rfl ⟨rfl, by simp [arrayAt]⟩)) .here
  refine ⟨hkept, fun h ↦ hcounts.mp h ⟨rfl, rfl, hkept⟩, ?_, ?_, fun h ↦ ?_⟩
  · exact (henclosed (encloses_wrappedPairAt 11) harray rfl).mpr (by simp)
  · rw [hunion rfl]
    rfl
  · exact (hflat (by decide)).mp h _ _ rfl (stands_aboveMemberAt 7) hkept (.union rfl rfl)

/-- A variable whose type is a union with a union in parentheses. -/
def variableSource : Source := .ofString "let x: (string | number) | boolean;\n"

private theorem ofNode_besideWrapped :
    ofNode variableSource (Frame.plugAll [besideBooleanAt 7] (wrappedPairAt 7)) =
      .union [.union [.primitive .string, .primitive .number], .primitive .boolean] := by rfl

private theorem ofNode_besideTaken :
    ofNode variableSource (Frame.plugAll [besideBooleanAt 7] ((pairAt 8).withField "")) =
      .union [.primitive .string, .primitive .number, .primitive .boolean] := by rfl

/-- In `(string | number) | boolean` the parentheses are kept: the union has a union as its first
element, and without the parentheses it has three elements. -/
theorem ofNode_keeps_wrappedPair :
    (wrappedPairAt 7).Encloses (pairAt 8) ∧
    Stands .type [besideBooleanAt 7] (wrappedPairAt 7) .alternative ∧
    ofNode variableSource (Frame.plugAll [besideBooleanAt 7] (wrappedPairAt 7)) =
      .union [.union [.primitive .string, .primitive .number], .primitive .boolean] ∧
    ofNode variableSource (Frame.plugAll [besideBooleanAt 7] ((pairAt 8).withField "")) =
      .union [.primitive .string, .primitive .number, .primitive .boolean] ∧
    ofNode variableSource (Frame.plugAll [besideBooleanAt 7] ((pairAt 8).withField "")) ≠
      ofNode variableSource (Frame.plugAll [besideBooleanAt 7] (wrappedPairAt 7)) ∧
    ¬ (ofNode variableSource (Frame.plugAll [besideBooleanAt 7] (wrappedPairAt 7))).Flat := by
  refine ⟨encloses_wrappedPairAt 7, stands_besideBooleanAt 7 rfl, ofNode_besideWrapped,
    ofNode_besideTaken, ?_, ?_⟩
  · simp [ofNode_besideWrapped, ofNode_besideTaken]
  · simp [ofNode_besideWrapped, isUnion]

end Signature

end PropDoc
