import Mathlib.Data.List.Sort
import PropDoc.Proofs.Syntax.Preorder
import PropDoc.SourceFile.Declaration

/-!
# Which type declarations a file has

Types are looked for everywhere in the tree of a file, kept where they stand at file scope and
sorted by where they start. In a tree whose only program is the root and whose nodes are well
placed, a scan of two levels finds the same in the same order: the statements, and what stands
right behind an `export`.
-/

namespace PropDoc

open PropDoc.Syntax

namespace TypeDeclaration

/-- A type is declared by a node with a type name as its name, in the form that the kind of the node
says. -/
structure DeclaredBy (focus : Focus) (declaration : TypeDeclaration) : Prop where
  place : declaration.focus = focus
  named : ∃ child ∈ focus.node.children, child.field = "name" ∧ child.kind = "type_identifier"
  form : focus.kind = "interface_declaration" ∧ declaration.kind = .interface ∨
    focus.kind = "type_alias_declaration" ∧ declaration.kind = .synonym

private theorem ofKind?_eq_some_iff (kind : String) (form : TypeDeclarationKind) :
    TypeDeclarationKind.ofKind? kind = some form ↔
      kind = "interface_declaration" ∧ form = .interface ∨
        kind = "type_alias_declaration" ∧ form = .synonym := by
  unfold TypeDeclarationKind.ofKind?
  split
  · next h =>
    obtain rfl := beq_iff_eq.mp h
    simp [eq_comm]
  · next h =>
    split
    · next h' =>
      obtain rfl := beq_iff_eq.mp h'
      simp [eq_comm]
    · next h' => simp_all

private theorem ofFocus?_eq_some_iff (focus : Focus) (declaration : TypeDeclaration) :
    ofFocus? focus = some declaration ↔ DeclaredBy focus declaration := by
  have hname : (focus.node.children.any fun child ↦
        child.field == "name" && child.kind == "type_identifier") = true ↔
      ∃ child ∈ focus.node.children, child.field = "name" ∧ child.kind = "type_identifier" := by
    simp
  unfold ofFocus?
  split
  · next h =>
    rw [Option.map_eq_some_iff]
    constructor
    · rintro ⟨form, hform, rfl⟩
      exact ⟨rfl, hname.mp h, (ofKind?_eq_some_iff _ _).mp hform⟩
    · rintro ⟨rfl, -, hform⟩
      exact ⟨declaration.kind, (ofKind?_eq_some_iff _ _).mpr hform, rfl⟩
  · next h =>
    constructor
    · rintro ⟨⟩
    · exact fun hdeclared ↦ absurd (hname.mpr hdeclared.named) h

end TypeDeclaration

namespace SourceFile

open TypeDeclaration

/-- The root of a file is a program, and no other node is. -/
def OneProgram (file : SourceFile) : Prop :=
  ∀ focus ∈ file.rootFocus.preorder, focus.kind = "program" ↔ focus.address = []

instance (file : SourceFile) : Decidable file.OneProgram :=
  inferInstanceAs (Decidable (∀ focus ∈ file.rootFocus.preorder,
    focus.kind = "program" ↔ focus.address = []))

/-- A node is a statement of a file, or stands right in one that exports. -/
def AtFileScope (file : SourceFile) (focus : Focus) : Prop :=
  ∃ parent, focus ∈ parent.children ∧
    (parent = file.rootFocus ∨
      parent ∈ file.rootFocus.children ∧ parent.kind = "export_statement")

/-- The types that a statement declares, itself or right behind `export`. -/
def typesOfStatement (statement : Focus) : List TypeDeclaration :=
  if statement.kind == "export_statement" then statement.children.filterMap ofFocus?
  else (ofFocus? statement).toList

/-- The types that a scan of the statements finds, in their order. -/
def scannedTypes (file : SourceFile) : List TypeDeclaration :=
  file.rootFocus.children.flatMap typesOfStatement

variable {file : SourceFile} {focus statement inner below : Focus}

/-! ### File scope -/

private theorem eq_rootFocus_of_address (h : focus ∈ file.rootFocus.preorder)
    (haddress : focus.address = []) : focus = file.rootFocus := by
  rcases Focus.exists_parent_of_mem_preorder h with rfl | ⟨parent, -, hchild⟩
  · rfl
  · have hlength := Focus.length_address hchild
    simp [haddress] at hlength

private theorem OneProgram.kind_eq_iff (h : file.OneProgram)
    (hfocus : focus ∈ file.rootFocus.preorder) :
    focus.kind = "program" ↔ focus = file.rootFocus := by
  rw [h focus hfocus]
  refine ⟨eq_rootFocus_of_address hfocus, ?_⟩
  rintro rfl
  rfl

/-- Where only the root is a program, the kinds of the two nodes above a node tell whether it stands
at file scope. -/
theorem atFileScope_iff (h : file.OneProgram) (hfocus : focus ∈ file.rootFocus.preorder) :
    TypeDeclaration.atFileScope focus = true ↔ file.AtFileScope focus := by
  rcases Focus.exists_parent_of_mem_preorder hfocus with rfl | ⟨parent, hparent, hchild⟩
  · simp only [TypeDeclaration.atFileScope, rootFocus, Focus.parent?, Bool.false_eq_true, false_iff]
    rintro ⟨parent, hchild, -⟩
    have hlength := Focus.length_address hchild
    simp [Focus.address] at hlength
  · have hunique : ∀ other, focus ∈ other.children ↔ other = parent := by
      intro other
      refine ⟨fun hother ↦ ?_, fun hother ↦ hother ▸ hchild⟩
      have hsame := Focus.parent?_of_mem_children hother
      rw [Focus.parent?_of_mem_children hchild, Option.some.injEq] at hsame
      exact hsame.symm
    have houter : (parent.parent?.map fun outer ↦ outer.kind == "program").getD false = true ↔
        parent ∈ file.rootFocus.children := by
      rcases Focus.exists_parent_of_mem_preorder hparent with rfl | ⟨outer, houter, hinner⟩
      · simp only [rootFocus, Focus.parent?, Option.map_none, Option.getD_none,
          Bool.false_eq_true, false_iff]
        intro hself
        have hlength := Focus.length_address hself
        simp [Focus.address] at hlength
      · rw [Focus.parent?_of_mem_children hinner, Option.map_some, Option.getD_some, beq_iff_eq,
          h.kind_eq_iff houter]
        constructor
        · rintro rfl
          exact hinner
        · intro hroot
          have hsame := Focus.parent?_of_mem_children hroot
          rwa [Focus.parent?_of_mem_children hinner, Option.some.injEq] at hsame
    simp only [TypeDeclaration.atFileScope, Focus.parent?_of_mem_children hchild, Bool.or_eq_true,
      Bool.and_eq_true, beq_iff_eq, h.kind_eq_iff hparent, houter, AtFileScope, hunique,
      exists_eq_left]
    rw [and_comm]

private theorem AtFileScope.length_le (h : file.AtFileScope focus) : focus.address.length ≤ 2 := by
  obtain ⟨parent, hchild, rfl | ⟨hparent, -⟩⟩ := h
  · rw [Focus.length_address hchild]
    simp [Focus.address, rootFocus]
  · rw [Focus.length_address hchild, Focus.length_address hparent]
    simp [Focus.address, rootFocus]

/-! ### The scan -/

private theorem filter_preorder_inner (h : file.OneProgram)
    (hstatement : statement ∈ file.rootFocus.children) (hinner : inner ∈ statement.children) :
    inner.preorder.filter TypeDeclaration.atFileScope =
      if statement.kind == "export_statement" then [inner] else [] := by
  have hmem : ∀ below ∈ inner.preorder, below ∈ file.rootFocus.preorder := fun below hbelow ↦
    Focus.mem_preorder_of_child hstatement (Focus.mem_preorder_of_child hinner hbelow)
  have hdeep : (inner.children.flatMap Focus.preorder).filter TypeDeclaration.atFileScope = [] := by
    rw [List.filter_eq_nil_iff]
    intro below hbelow hscope
    obtain ⟨child, hchild, hbelow⟩ := List.mem_flatMap.mp hbelow
    have hlength := ((atFileScope_iff h
      (hmem below (Focus.mem_preorder_of_child hchild hbelow))).mp hscope).length_le
    have hle := (Focus.address_suffix hbelow).length_le
    rw [Focus.length_address hchild, Focus.length_address hinner,
      Focus.length_address hstatement] at hle
    omega
  have hself : TypeDeclaration.atFileScope inner = (statement.kind == "export_statement") := by
    rw [Bool.eq_iff_iff, atFileScope_iff h (hmem inner inner.mem_preorder_self), beq_iff_eq]
    constructor
    · rintro ⟨parent, hchild, hparent⟩
      have hsame := Focus.parent?_of_mem_children hinner
      rw [Focus.parent?_of_mem_children hchild, Option.some.injEq] at hsame
      subst hsame
      rcases hparent with rfl | ⟨-, hkind⟩
      · have hlength := Focus.length_address hstatement
        omega
      · exact hkind
    · exact fun hkind ↦ ⟨statement, hinner, .inr ⟨hstatement, hkind⟩⟩
  rw [Focus.preorder_eq, List.filter_cons, hdeep, hself]

private theorem filter_preorder_statement (h : file.OneProgram)
    (hstatement : statement ∈ file.rootFocus.children) :
    statement.preorder.filter TypeDeclaration.atFileScope =
      statement :: if statement.kind == "export_statement" then statement.children else [] := by
  have hself : TypeDeclaration.atFileScope statement = true :=
    (atFileScope_iff h (Focus.mem_preorder_of_mem_children (Focus.mem_preorder_self _)
      hstatement)).mpr ⟨file.rootFocus, hstatement, .inl rfl⟩
  rw [Focus.preorder_eq, List.filter_cons_of_pos hself, List.filter_flatMap,
    List.flatMap_congr fun inner hinner ↦ filter_preorder_inner h hstatement hinner]
  split <;> simp

private theorem filter_preorder_rootFocus (h : file.OneProgram) :
    file.rootFocus.preorder.filter TypeDeclaration.atFileScope =
      file.rootFocus.children.flatMap fun statement ↦
        statement :: if statement.kind == "export_statement" then statement.children else [] := by
  have hroot : ¬ TypeDeclaration.atFileScope file.rootFocus = true := by
    simp [TypeDeclaration.atFileScope, rootFocus, Focus.parent?]
  rw [Focus.preorder_eq, List.filter_cons_of_neg hroot, List.filter_flatMap]
  exact List.flatMap_congr fun statement hstatement ↦ filter_preorder_statement h hstatement

private theorem filter_filterMap_ofFocus? (items : List Focus) :
    (items.filterMap ofFocus?).filter (fun declaration ↦
        TypeDeclaration.atFileScope declaration.focus) =
      (items.filter TypeDeclaration.atFileScope).filterMap ofFocus? := by
  induction items with
  | nil => rfl
  | cons focus items ih =>
    cases hfound : ofFocus? focus with
    | none => cases hscope : TypeDeclaration.atFileScope focus <;> simp [hfound, hscope, ih]
    | some declaration =>
      obtain rfl := ((ofFocus?_eq_some_iff _ _).mp hfound).place
      cases hscope : TypeDeclaration.atFileScope declaration.focus <;> simp [hfound, hscope, ih]

private theorem filterMap_statement (statement : Focus) :
    (statement :: if statement.kind == "export_statement" then statement.children else
      []).filterMap ofFocus? = typesOfStatement statement := by
  unfold typesOfStatement
  split
  · next hkind =>
    have hnone : ofFocus? statement = none := by
      rw [Option.eq_none_iff_forall_ne_some]
      intro declaration hsome
      have hform := ((ofFocus?_eq_some_iff _ _).mp hsome).form
      rw [beq_iff_eq.mp hkind] at hform
      simp at hform
    rw [List.filterMap_cons_none hnone]
  · cases hfound : ofFocus? statement <;> simp [hfound]

/-- The types found at file scope, in pre-order, are those that the scan finds. -/
theorem filter_preorder_eq_scannedTypes (h : file.OneProgram) :
    (file.rootFocus.preorder.filterMap ofFocus?).filter (fun declaration ↦
      TypeDeclaration.atFileScope declaration.focus) = file.scannedTypes := by
  rw [filter_filterMap_ofFocus?, filter_preorder_rootFocus h, List.filterMap_flatMap]
  simp only [filterMap_statement]
  rfl

private theorem focus_eq_of_ofFocus? {declaration : TypeDeclaration}
    (h : ofFocus? focus = some declaration) : declaration.focus = focus :=
  ((ofFocus?_eq_some_iff focus declaration).mp h).place

private theorem pairwise_filterMap_ofFocus? {R : Focus → Focus → Prop} {items : List Focus}
    (h : items.Pairwise R) :
    (items.filterMap ofFocus?).Pairwise fun first second ↦ R first.focus second.focus := by
  rw [List.pairwise_filterMap]
  refine h.imp ?_
  intro first second hrel declaration hfirst declaration' hsecond
  rwa [focus_eq_of_ofFocus? hfirst, focus_eq_of_ofFocus? hsecond]

private theorem mem_preorder_of_mem_typesOfStatement {declaration : TypeDeclaration}
    (h : declaration ∈ typesOfStatement statement) : declaration.focus ∈ statement.preorder := by
  rw [← filterMap_statement, List.mem_filterMap] at h
  obtain ⟨focus, hfocus, hfound⟩ := h
  rw [focus_eq_of_ofFocus? hfound]
  rcases List.mem_cons.mp hfocus with rfl | hinner
  · exact focus.mem_preorder_self
  · split at hinner
    · exact Focus.mem_preorder_of_mem_children statement.mem_preorder_self hinner
    · cases hinner

private theorem pairwise_scannedTypes (h : file.rootFocus.WellPlaced) :
    file.scannedTypes.Pairwise fun first second ↦
      first.focus.node.stop ≤ second.focus.node.start := by
  have hstatements : ∀ statement ∈ file.rootFocus.children, statement.WellPlaced :=
    fun statement hstatement ↦ h.of_mem
      (Focus.mem_preorder_of_mem_children (Focus.mem_preorder_self _) hstatement)
  rw [scannedTypes, List.pairwise_flatMap]
  constructor
  · intro statement hstatement
    unfold typesOfStatement
    split
    · exact pairwise_filterMap_ofFocus? (hstatements statement hstatement).children_apart
    · cases ofFocus? statement <;> simp
  · refine h.children_apart.imp_of_mem ?_
    intro first second hfirst hsecond hapart declaration hmem declaration' hmem'
    calc declaration.focus.node.stop
      _ ≤ first.node.stop :=
        ((hstatements first hfirst).inside (mem_preorder_of_mem_typesOfStatement hmem)).2
      _ ≤ second.node.start := hapart
      _ ≤ declaration'.focus.node.start :=
        ((hstatements second hsecond).inside (mem_preorder_of_mem_typesOfStatement hmem')).1

-- Sorting by start changes nothing, since nodes start in pre-order.
private theorem typeDeclarations_eq_scannedTypes (hprogram : file.OneProgram)
    (hplaced : file.rootFocus.WellPlaced) : file.typeDeclarations = file.scannedTypes := by
  have hsorted := (pairwise_filterMap_ofFocus? hplaced.pairwise_start).filter
    fun declaration ↦ TypeDeclaration.atFileScope declaration.focus
  rw [typeDeclarations, List.mergeSort_of_pairwise (by simpa using hsorted),
    filter_preorder_eq_scannedTypes hprogram]

private theorem mem_scannedTypes_iff (declaration : TypeDeclaration) :
    declaration ∈ file.scannedTypes ↔
      file.AtFileScope declaration.focus ∧ DeclaredBy declaration.focus declaration := by
  simp only [scannedTypes, List.mem_flatMap, ← filterMap_statement, List.mem_filterMap,
    ofFocus?_eq_some_iff]
  constructor
  · rintro ⟨statement, hstatement, focus, hfocus, hdeclared⟩
    obtain rfl := hdeclared.place
    refine ⟨?_, hdeclared⟩
    rcases List.mem_cons.mp hfocus with rfl | hinner
    · exact ⟨file.rootFocus, hstatement, .inl rfl⟩
    · split at hinner
      · next hkind => exact ⟨statement, hinner, .inr ⟨hstatement, beq_iff_eq.mp hkind⟩⟩
      · cases hinner
  · rintro ⟨⟨parent, hchild, rfl | ⟨hparent, hkind⟩⟩, hdeclared⟩
    · exact ⟨declaration.focus, hchild, declaration.focus, List.mem_cons_self, hdeclared⟩
    · exact ⟨parent, hparent, declaration.focus, by simp [hkind, hchild], hdeclared⟩

-- Below a node other than the root and the statements that export, nothing is at file scope.
private theorem AtFileScope.eq_of_mem_preorder (h : file.AtFileScope below)
    (hfocus : focus.address ≠ []) (hkind : focus.kind ≠ "export_statement")
    (hbelow : below ∈ focus.preorder) : below = focus := by
  have hroot : file.rootFocus ∉ focus.preorder := fun hmem ↦
    hfocus (List.suffix_nil.mp (Focus.address_suffix hmem))
  obtain ⟨parent, hchild, hparent⟩ := h
  rcases Focus.exists_parent_of_mem_preorder hbelow with heq | ⟨holder, hholder, hchild'⟩
  · exact heq
  · have hsame := Focus.parent?_of_mem_children hchild
    rw [Focus.parent?_of_mem_children hchild', Option.some.injEq] at hsame
    subst hsame
    rcases hparent with rfl | ⟨hstatement, hexport⟩
    · exact absurd hholder hroot
    · rcases Focus.exists_parent_of_mem_preorder hholder with rfl | ⟨outer, houter, hinner⟩
      · exact absurd hexport hkind
      · have hsame := Focus.parent?_of_mem_children hstatement
        rw [Focus.parent?_of_mem_children hinner, Option.some.injEq] at hsame
        exact absurd (hsame ▸ houter) hroot

/-- The types of a file are those that a scan of its statements finds, in the same order: the
interfaces and type aliases with a name at file scope, each once and each before the next one
starts. None lies below a node other than the root and a statement that exports, and the type of a
name is the first in source order. -/
theorem typeDeclarations_of_oneProgram (hprogram : file.OneProgram)
    (hplaced : file.rootFocus.WellPlaced) :
    file.typeDeclarations = file.scannedTypes ∧
    (∀ declaration, declaration ∈ file.typeDeclarations ↔
      file.AtFileScope declaration.focus ∧ DeclaredBy declaration.focus declaration) ∧
    (∀ focus : Focus, focus.address ≠ [] → focus.kind ≠ "export_statement" →
      ∀ declaration ∈ file.typeDeclarations,
        declaration.focus ∈ focus.preorder → declaration.focus = focus) ∧
    (file.typeDeclarations.Pairwise fun first second ↦
      first.focus.address ≠ second.focus.address ∧
        first.focus.node.stop ≤ second.focus.node.start) ∧
    ∀ name, file.typeNamed? name =
        file.scannedTypes.find? (fun declaration ↦ file.typeName? declaration = some name) ∧
      ∀ declaration, file.typeNamed? name = some declaration →
        ∀ other ∈ file.typeDeclarations, file.typeName? other = some name →
          other = declaration ∨ declaration.focus.node.stop ≤ other.focus.node.start := by
  have hscan := typeDeclarations_eq_scannedTypes hprogram hplaced
  have hplaces : file.scannedTypes.Pairwise fun first second ↦
      first.focus.address ≠ second.focus.address := by
    rw [← filter_preorder_eq_scannedTypes hprogram]
    exact (pairwise_filterMap_ofFocus? (Focus.pairwise_preorder _)).filter _
  have horder := pairwise_scannedTypes hplaced
  simp only [typeNamed?, hscan]
  refine ⟨trivial, mem_scannedTypes_iff, ?_, hplaces.and horder, fun name ↦ ⟨trivial, ?_⟩⟩
  · intro focus hfocus hkind declaration hmem
    exact ((mem_scannedTypes_iff declaration).mp hmem).1.eq_of_mem_preorder hfocus hkind
  · intro declaration hfound other hother hname
    obtain ⟨-, before, after, hsplit, hbefore⟩ := List.find?_eq_some_iff_append.mp hfound
    rw [hsplit, List.pairwise_append, List.pairwise_cons] at horder
    rw [hsplit, List.mem_append, List.mem_cons] at hother
    rcases hother with hother | heq | hother
    · simpa [hname] using hbefore other hother
    · exact .inl heq
    · exact .inr (horder.2.1.1 other hother)

/-- A file that declares one name twice and another also inside a function. -/
def repeatedTypes : SourceFile where
  path := ⟨"types.ts"⟩
  source := .ofString
    "interface A {}\nexport type B = A;\nfunction f() { interface B {} }\ninterface A { x: B }\n"
  root := .mk { kind := "program", stop := 87 } [
    .mk { kind := "interface_declaration", stop := 14 } [
      .mk { kind := "interface", named := false, stop := 9 } [],
      .mk { kind := "type_identifier", field := "name", start := 10, stop := 11 } [],
      .mk { kind := "interface_body", field := "body", start := 12, stop := 14 } []],
    .mk { kind := "export_statement", start := 15, stop := 33 } [
      .mk { kind := "export", named := false, start := 15, stop := 21 } [],
      .mk { kind := "type_alias_declaration", field := "declaration", start := 22, stop := 33 } [
        .mk { kind := "type", named := false, start := 22, stop := 26 } [],
        .mk { kind := "type_identifier", field := "name", start := 27, stop := 28 } [],
        .mk { kind := "=", named := false, start := 29, stop := 30 } [],
        .mk { kind := "type_identifier", field := "value", start := 31, stop := 32 } [],
        .mk { kind := ";", named := false, start := 32, stop := 33 } []]],
    .mk { kind := "function_declaration", start := 34, stop := 65 } [
      .mk { kind := "function", named := false, start := 34, stop := 42 } [],
      .mk { kind := "identifier", field := "name", start := 43, stop := 44 } [],
      .mk { kind := "formal_parameters", field := "parameters", start := 44, stop := 46 } [],
      .mk { kind := "statement_block", field := "body", start := 47, stop := 65 } [
        .mk { kind := "interface_declaration", start := 49, stop := 63 } [
          .mk { kind := "interface", named := false, start := 49, stop := 58 } [],
          .mk { kind := "type_identifier", field := "name", start := 59, stop := 60 } [],
          .mk { kind := "interface_body", field := "body", start := 61, stop := 63 } []]]],
    .mk { kind := "interface_declaration", start := 66, stop := 86 } [
      .mk { kind := "interface", named := false, start := 66, stop := 75 } [],
      .mk { kind := "type_identifier", field := "name", start := 76, stop := 77 } [],
      .mk { kind := "interface_body", field := "body", start := 78, stop := 86 } []]]

/-- The type inside the function is not found, and of the two with one name the first is meant. -/
theorem typeDeclarations_of_oneProgram_repeated :
    repeatedTypes.OneProgram ∧ repeatedTypes.rootFocus.WellPlaced ∧
    (repeatedTypes.typeDeclarations.map fun declaration ↦ declaration.focus.address) =
      [[0], [1, 1], [3]] ∧
    ((repeatedTypes.typeNamed? "A").map fun declaration ↦ declaration.focus.address) =
      some [0] ∧
    ((repeatedTypes.typeNamed? "B").map fun declaration ↦ declaration.focus.address) =
      some [1, 1] := by
  have hprogram : repeatedTypes.OneProgram := by decide +kernel
  have hplaced : repeatedTypes.rootFocus.WellPlaced := by decide +kernel
  obtain ⟨hscan, -, -, -, hnamed⟩ := typeDeclarations_of_oneProgram hprogram hplaced
  refine ⟨hprogram, hplaced, ?_, ?_, ?_⟩
  · rw [hscan]
    decide +kernel
  · rw [(hnamed "A").1]
    decide +kernel
  · rw [(hnamed "B").1]
    decide +kernel

end SourceFile

end PropDoc
