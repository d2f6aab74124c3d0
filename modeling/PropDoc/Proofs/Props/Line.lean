import PropDoc.Proofs.Comment.Line
import PropDoc.Proofs.Props.Description
import PropDoc.Proofs.Syntax.Row

/-!
# The lines of problems in leading comments

The lines that a reading speaks of are lines of the comment. In a file these are the rows of the
comment node, so that the error of a faulty leading comment points into that comment.
-/

namespace PropDoc

open PropDoc.Syntax PropDoc.Comment

/-- What is reported about a comment of a file lies between its first row and its last. -/
theorem line_of_mem_readComment {file : SourceFile} {comment : Focus}
    (h : comment.node.start ≤ comment.node.stop) {tags : TagSet} {diagnostic : Diagnostic}
    (hdiagnostic : diagnostic ∈ (file.readComment tags comment).diagnostics) :
    comment.node.startRow file.source + 1 ≤ diagnostic.line ∧
      diagnostic.line ≤ comment.node.stopRow file.source + 1 := by
  rw [SourceFile.readComment] at hdiagnostic
  obtain ⟨hfirst, hlast⟩ := (Reading.line_of_mem_read ..).2 diagnostic hdiagnostic
  have hrows : comment.node.startRow file.source + (file.text comment.node).toList.count '\n' ≤
      comment.node.stopRow file.source := file.source.row_add_count_slice_le h
  omega

private theorem exists_diagnostic_of_bind {table : PropTable} {tags : TagSet} {file : SourceFile}
    {anchor comment : Focus} (hcomment : LedBy file.source anchor comment) {error : Error}
    (h : table.bind tags file anchor = .error error) :
    ∃ diagnostic ∈ (file.readComment tags comment).diagnostics,
      error = .faultyComment file.path diagnostic := by
  rw [PropTable.bind, PropTable.head?_leadingComments_eq_some_iff.mpr hcomment] at h
  dsimp only at h
  split at h
  · next diagnostic hhead =>
    exact ⟨diagnostic, List.mem_of_head? hhead, (Except.error.inj h).symm⟩
  · cases h

/-- The lines of comments are right. Those of a framed comment's reading are in their places,
whatever is wrong with it; a comment that starts further down reads the same with all its lines as
much further down; and the line in the error of a leading comment lies between the first and the
last row of that comment. -/
theorem lines_in_place (tags : TagSet) :
    (∀ (text : String) (firstLine : Nat), Framed text.toList →
      (read tags text firstLine).InPlace tags text.toList firstLine) ∧
    (∀ (text : String) (firstLine count : Nat),
      read tags text (firstLine + count) = (read tags text firstLine).raise count) ∧
    ∀ (table : PropTable) (file : SourceFile) (anchor comment : Focus) (error : Error),
      LedBy file.source anchor comment → comment.node.start ≤ comment.node.stop →
      table.bind tags file anchor = .error error →
      ∃ diagnostic, error = .faultyComment file.path diagnostic ∧
        comment.node.startRow file.source + 1 ≤ diagnostic.line ∧
        diagnostic.line ≤ comment.node.stopRow file.source + 1 := by
  refine ⟨fun text firstLine h ↦ Reading.inPlace_read h tags firstLine, read_add tags, ?_⟩
  intro table file anchor comment error hcomment hnode h
  obtain ⟨diagnostic, hdiagnostic, rfl⟩ := exists_diagnostic_of_bind hcomment h
  exact ⟨diagnostic, rfl, line_of_mem_readComment hnode hdiagnostic⟩

-- A comment with an open code span, a block without a name and an open fence.
private def faultyComment : String := "/**\n * \x60a\n * @prop\n * \x60\x60\x60\n */"

-- A file with that comment on its second row, right before a component.
private def faultyFile : SourceFile :=
  let n := 3 + faultyComment.length
  { path := ⟨"Field.tsx"⟩
    source := .ofString (";;\n" ++ faultyComment ++ "\nexport function A() \x7b\x7d\n")
    root := .mk { kind := "program", stop := n + 24 } [
      .mk { kind := "empty_statement", stop := 2 } [],
      .mk { kind := "comment", start := 3, stop := n } [],
      .mk { kind := "export_statement", start := n + 1, stop := n + 23 } []] }

private def faultyAnchor : Focus := (faultyFile.statements[2]?).getD faultyFile.rootFocus

private def faultyFocus : Focus := (faultyFile.statements[1]?).getD faultyFile.rootFocus

/-- A comment with an open code span, an open fence and a block without a hyphen has each problem on
its line. -/
theorem lines_in_place_faulty :
    Framed faultyComment.toList ∧
    (read .standard faultyComment 2).InPlace .standard faultyComment.toList 2 ∧
    (read .standard faultyComment 2).diagnostics =
      [⟨.openCodeSpan, 3⟩, ⟨.openFence, 6⟩, ⟨.missingHyphen "@prop", 4⟩] ∧
    LedBy faultyFile.source faultyAnchor faultyFocus ∧
    faultyFocus.node.start ≤ faultyFocus.node.stop ∧
    PropTable.bind Table.empty .standard faultyFile faultyAnchor =
      .error (.faultyComment faultyFile.path ⟨.openCodeSpan, 3⟩) ∧
    faultyFocus.node.startRow faultyFile.source + 1 ≤ 3 ∧
    3 ≤ faultyFocus.node.stopRow faultyFile.source + 1 := by
  have hframed : Framed faultyComment.toList := by decide +kernel
  have hread : (read .standard faultyComment 2).diagnostics =
      [⟨.openCodeSpan, 3⟩, ⟨.openFence, 6⟩, ⟨.missingHyphen "@prop", 4⟩] := by
    decide +kernel
  have hled : LedBy faultyFile.source faultyAnchor faultyFocus :=
    PropTable.head?_leadingComments_eq_some_iff.mp rfl
  have hnode : faultyFocus.node.start ≤ faultyFocus.node.stop := by decide +kernel
  have hbind : PropTable.bind Table.empty .standard faultyFile faultyAnchor =
      .error (.faultyComment faultyFile.path ⟨.openCodeSpan, 3⟩) := by
    have hhead : (faultyFile.readComment .standard faultyFocus).diagnostics.head? =
        some ⟨.openCodeSpan, 3⟩ := by
      decide +kernel
    rw [SourceFile.readComment] at hhead
    rw [PropTable.bind, PropTable.head?_leadingComments_eq_some_iff.mpr hled]
    dsimp only
    rw [hhead]
  obtain ⟨diagnostic, herror, hrows⟩ :=
    (lines_in_place .standard).2.2 _ _ _ _ _ hled hnode hbind
  cases herror
  exact ⟨hframed, (lines_in_place .standard).1 _ 2 hframed, hread, hled, hnode, hbind, hrows⟩

end PropDoc
