import PropDoc.SourceFile.Declaration

/-!
# Which statements make links

A link is made by a statement at the top of a file, an import or an export, that names a module as
its source. Its specifier is the text of the source without quotes, its names are those of the
clauses of the statement, and every name is passed on if the statement has a star.
-/

namespace PropDoc

open PropDoc.Syntax

namespace SourceFile

variable {file : SourceFile} {statement : Node} {link : Link} {linked : LinkedName}

/-- A list in braces has an entry for a name. Without an alias it is called the same on both
sides. -/
inductive Lists (file : SourceFile) (kind : String) (list : Node) : LinkedName → Prop where
  | plain {entry name : Node} : entry ∈ list.namedChildren → entry.kind = kind →
      entry.field? "name" = some name → entry.field? "alias" = none →
      Lists file kind list ⟨file.nameText name, file.nameText name⟩
  | aliased {entry name own : Node} : entry ∈ list.namedChildren → entry.kind = kind →
      entry.field? "name" = some name → entry.field? "alias" = some own →
      Lists file kind list ⟨file.nameText own, file.nameText name⟩

/-- A statement carries a name: it imports the default export under it, it imports it in braces, or
it exports it in braces. -/
inductive Carries (file : SourceFile) (statement : Node) : LinkedName → Prop where
  | default {clause name : Node} : clause ∈ statement.children → clause.kind = "import_clause" →
      name ∈ clause.namedChildren → name.kind = "identifier" →
      Carries file statement ⟨file.text name, "default"⟩
  | imported {clause list : Node} {linked : LinkedName} : clause ∈ statement.children →
      clause.kind = "import_clause" → list ∈ clause.namedChildren → list.kind = "named_imports" →
      file.Lists "import_specifier" list linked → Carries file statement linked
  | exported {clause : Node} {linked : LinkedName} : clause ∈ statement.children →
      clause.kind = "export_clause" → file.Lists "export_specifier" clause linked →
      Carries file statement linked

/-- A statement makes a link. Its names come in the order of the clauses. -/
structure Makes (file : SourceFile) (statement : Node) (link : Link) : Prop where
  kind : statement.kind = "import_statement" ∧ link.kind = .brings ∨
    statement.kind = "export_statement" ∧ link.kind = .passesOn
  specifier : ∃ source, statement.field? "source" = some source ∧
    link.specifier = file.nameText source
  names : link.names = statement.children.flatMap file.linkedNames
  carried : ∀ linked, linked ∈ link.names ↔ file.Carries statement linked
  wildcard : link.wildcard = true ↔ ∃ child ∈ statement.children, child.kind = "*"

-- What is chosen by one of two kinds, and is something else for any other.
private theorem ofKind_iff {α : Type} {P : α → Prop} {other : α} (hother : ¬ P other)
    {kind first second : String} (hne : first ≠ second) (x y : α) :
    P (if kind == first then x else if kind == second then y else other) ↔
      kind = first ∧ P x ∨ kind = second ∧ P y := by
  by_cases hfirst : kind = first
  · subst hfirst
    simp [hne]
  · by_cases hsecond : kind = second
    · subst hsecond
      simp [hfirst]
    · simp [hfirst, hsecond, hother]

private theorem linkKind?_eq_some_iff (statement : Node) (kind : LinkKind) :
    linkKind? statement = some kind ↔
      statement.kind = "import_statement" ∧ kind = .brings ∨
        statement.kind = "export_statement" ∧ kind = .passesOn := by
  rw [linkKind?, ofKind_iff (P := (· = some kind)) (Option.some_ne_none kind).symm (by decide),
    Option.some_inj, Option.some_inj, eq_comm (a := LinkKind.brings),
    eq_comm (a := LinkKind.passesOn)]

private theorem mem_specifierNames_iff (kind : String) (list : Node) :
    linked ∈ file.specifierNames kind list ↔ file.Lists kind list linked := by
  simp only [specifierNames, List.mem_filterMap, List.mem_filter, beq_iff_eq,
    Option.map_eq_some_iff]
  constructor
  · rintro ⟨entry, ⟨hentry, hkind⟩, name, hname, rfl⟩
    cases halias : entry.field? "alias" with
    | none => exact .plain hentry hkind hname halias
    | some own => exact .aliased hentry hkind hname halias
  · rintro (⟨hentry, hkind, hname, halias⟩ | ⟨hentry, hkind, hname, halias⟩)
    all_goals exact ⟨_, ⟨hentry, hkind⟩, _, hname, by rw [halias]; rfl⟩

private theorem mem_importedNames_iff (clause : Node) :
    linked ∈ file.importedNames clause ↔ ∃ child ∈ clause.namedChildren,
      child.kind = "identifier" ∧ linked = ⟨file.text child, "default"⟩ ∨
        child.kind = "named_imports" ∧ file.Lists "import_specifier" child linked := by
  rw [importedNames, List.mem_flatMap]
  apply exists_congr
  intro child
  rw [ofKind_iff (P := (linked ∈ ·)) List.not_mem_nil (by decide), List.mem_singleton,
    mem_specifierNames_iff]

private theorem mem_linkedNames_iff (child : Node) :
    linked ∈ file.linkedNames child ↔
      child.kind = "import_clause" ∧ linked ∈ file.importedNames child ∨
        child.kind = "export_clause" ∧ file.Lists "export_specifier" child linked := by
  rw [linkedNames, ofKind_iff (P := (linked ∈ ·)) List.not_mem_nil (by decide),
    mem_specifierNames_iff]

private theorem mem_flatMap_linkedNames_iff :
    linked ∈ statement.children.flatMap file.linkedNames ↔ file.Carries statement linked := by
  rw [List.mem_flatMap]
  simp only [mem_linkedNames_iff, mem_importedNames_iff]
  constructor
  · rintro ⟨clause, hclause, ⟨himport, child, hchild, hnamed⟩ | ⟨hexport, hlists⟩⟩
    · rcases hnamed with ⟨hdefault, rfl⟩ | ⟨hlist, hlists⟩
      · exact .default hclause himport hchild hdefault
      · exact .imported hclause himport hchild hlist hlists
    · exact .exported hclause hexport hlists
  · rintro (⟨hclause, himport, hchild, hdefault⟩ |
      ⟨hclause, himport, hchild, hlist, hlists⟩ | ⟨hclause, hexport, hlists⟩)
    · exact ⟨_, hclause, .inl ⟨himport, _, hchild, .inl ⟨hdefault, rfl⟩⟩⟩
    · exact ⟨_, hclause, .inl ⟨himport, _, hchild, .inr ⟨hlist, hlists⟩⟩⟩
    · exact ⟨_, hclause, .inr ⟨hexport, hlists⟩⟩

/-- A statement gives the link that it makes, and none if it makes none. -/
theorem link?_eq_some_iff :
    file.link? statement = some link ↔ file.Makes statement link := by
  simp only [link?, Option.bind_eq_some_iff, Option.map_eq_some_iff, linkKind?_eq_some_iff]
  constructor
  · rintro ⟨kind, hkind, source, hsource, rfl⟩
    exact ⟨hkind, ⟨source, hsource, rfl⟩, rfl, fun _ ↦ mem_flatMap_linkedNames_iff, by simp⟩
  · rintro ⟨hkind, ⟨source, hsource, hspecifier⟩, hnames, -, hwildcard⟩
    refine ⟨link.kind, hkind, source, hsource, ?_⟩
    obtain ⟨kind, specifier, names, wildcard⟩ := link
    subst hspecifier hnames
    congr
    rw [Bool.eq_iff_iff, hwildcard]
    simp

/-- The links of a file are those that the statements at its top make. -/
theorem mem_links_iff :
    link ∈ file.links ↔ ∃ statement ∈ file.root.namedChildren, file.Makes statement link := by
  simp only [links, List.mem_filterMap, link?_eq_some_iff]

end SourceFile

end PropDoc
