import Mathlib.Algebra.Ring.Nat
import Mathlib.Order.Bounds.Basic
import PropDoc.Proofs.Documentation.Outcome
import PropDoc.Proofs.Syntax.Preorder

/-!
# What syntax issues are reported

A fault is a node that is missing or an error. A parser promises two things: the flag of a node says
whether there is a fault in or below it, and nodes start in pre-order. Given that, the issues of a
file are its topmost faults in pre-order, the first of which lies on the smallest line of all. Main
statement: the issues are what a walk with a stack finds; a project passes the check of its syntax
exactly if no file has a fault, and otherwise the first file with one is reported with that line.
-/

namespace PropDoc

namespace Syntax

/-- Whether a node is missing or an error. -/
def Node.isFaulty (node : Node) : Bool := node.missing || node.error

/-- A later offset is on the same row or a later one. -/
theorem Source.row_mono (source : Source) {first second : Nat} (h : first ≤ second) :
    source.row first ≤ source.row second :=
  (List.take_prefix_take_left h).sublist.count_le 10

namespace Focus

/-- Whether a node is faulty and none above it is. -/
def isTopmostFault (focus : Focus) : Bool :=
  focus.node.isFaulty && focus.above.all fun step ↦ !step.1.isFaulty

/-- The flag of every node says whether there is a fault in or below it. -/
def Flagged (focus : Focus) : Prop :=
  ∀ below ∈ focus.preorder,
    below.node.hasError = true ↔ ∃ deeper ∈ below.preorder, deeper.node.isFaulty = true

instance (focus : Focus) : Decidable focus.Flagged :=
  inferInstanceAs (Decidable (∀ below ∈ focus.preorder,
    below.node.hasError = true ↔ ∃ deeper ∈ below.preorder, deeper.node.isFaulty = true))

/-- There is no fault above a node. -/
def Clear (focus : Focus) : Prop := ∀ step ∈ focus.above, step.1.isFaulty = false

variable {focus child below : Focus}

/-- The flags below a child are right. -/
theorem Flagged.of_child (h : focus.Flagged) (hchild : child ∈ focus.children) : child.Flagged :=
  fun below hbelow ↦ h below (mem_preorder_of_child hchild hbelow)

/-- There is no fault above a child of a node that is none and has none above it. -/
theorem Clear.of_child (h : focus.Clear) (hfault : focus.node.isFaulty = false)
    (hchild : child ∈ focus.children) : child.Clear := by
  obtain ⟨-, position, hposition⟩ := exists_position hchild
  intro step hstep
  rw [hposition, List.mem_cons] at hstep
  rcases hstep with rfl | hstep
  · exact hfault
  · exact h step hstep

private theorem isTopmostFault_of_clear (h : focus.Clear) :
    focus.isTopmostFault = focus.node.isFaulty := by
  have hall : (focus.above.all fun step ↦ !step.1.isFaulty) = true := by
    simpa [Clear] using h
  rw [isTopmostFault, hall, Bool.and_true]

private theorem not_topmost_below (hfault : focus.node.isFaulty = true)
    (hchild : child ∈ focus.children) (hbelow : below ∈ child.preorder) :
    below.isTopmostFault = false := by
  obtain ⟨-, position, hposition⟩ := exists_position hchild
  have hmem : (focus.node, position) ∈ below.above :=
    (above_suffix hbelow).mem (hposition ▸ List.mem_cons_self)
  have hall : (below.above.all fun step ↦ !step.1.isFaulty) = false :=
    List.all_eq_false.mpr ⟨_, hmem, by simp [hfault]⟩
  rw [isTopmostFault, hall, Bool.and_false]

-- Without the flag there is no fault to be missed.
private theorem filter_topmost_of_clean (hflags : focus.Flagged)
    (hclean : ¬ focus.node.hasError = true) : focus.preorder.filter isTopmostFault = [] := by
  rw [List.filter_eq_nil_iff]
  intro below hbelow htopmost
  have hfault : below.node.isFaulty = true := by
    rw [isTopmostFault, Bool.and_eq_true] at htopmost
    exact htopmost.1
  exact hclean ((hflags focus focus.mem_preorder_self).mpr ⟨below, hbelow, hfault⟩)

private theorem find?_isFaulty (h : focus.Clear) :
    focus.preorder.find? (fun below ↦ below.node.isFaulty) =
      focus.preorder.find? isTopmostFault := by
  induction focus using childInduction with
  | step focus ih =>
    rw [preorder_eq, List.find?_cons, List.find?_cons, isTopmostFault_of_clear h]
    cases hfault : focus.node.isFaulty with
    | true => rfl
    | false =>
      simp only [List.find?_flatMap]
      apply findSome?_congr
      intro child hchild
      exact ih child hchild (h.of_child hfault hchild)

end Focus

end Syntax

open PropDoc.Syntax

namespace SyntaxIssue

/-- The issue that a faulty node is reported as. -/
def ofFault (source : Source) (node : Node) : SyntaxIssue :=
  ⟨source.row node.start + 1,
    if node.missing then .expected node.kind else problemAt (node.text source)⟩

private theorem ofNodes_eq_flatMap (source : Source) (nodes : List Node) :
    ofNodes source nodes = nodes.flatMap (ofNode source) := by
  induction nodes with
  | nil => rfl
  | cons node nodes ih => rw [ofNodes, ih, List.flatMap_cons]

private theorem ofNode_of_faulty (source : Source) {node : Node} (h : node.isFaulty = true) :
    ofNode source node = [ofFault source node] := by
  obtain ⟨label, children⟩ := node
  rw [ofNode, ofFault]
  cases hmissing : label.missing with
  | true => simp [Node.missing, Node.label, hmissing, Node.start, Node.kind]
  | false =>
    have herror : label.error = true := by
      simpa [Node.isFaulty, Node.missing, Node.error, Node.label, hmissing] using h
    simp [Node.missing, Node.label, hmissing, herror, Node.start, Node.stop, Node.text]

private theorem ofNode_of_not_faulty (source : Source) {node : Node} (h : node.isFaulty = false) :
    ofNode source node = if node.hasError then node.children.flatMap (ofNode source) else [] := by
  obtain ⟨label, children⟩ := node
  obtain ⟨hmissing, herror⟩ : label.missing = false ∧ label.error = false := by
    simpa [Node.isFaulty, Node.missing, Node.error, Node.label] using h
  rw [ofNode, ofNodes_eq_flatMap, if_neg (by simp [hmissing]), if_neg (by simp [herror])]
  rfl

/-- The issues in a node are its topmost faults in pre-order. -/
theorem ofNode_eq_map {source : Source} {focus : Focus} (hflags : focus.Flagged)
    (hclear : focus.Clear) :
    ofNode source focus.node =
      (focus.preorder.filter Focus.isTopmostFault).map fun fault ↦ ofFault source fault.node := by
  induction focus using Focus.childInduction with
  | step focus ih =>
    cases hfault : focus.node.isFaulty with
    | true =>
      have htopmost : focus.isTopmostFault = true :=
        (Focus.isTopmostFault_of_clear hclear).trans hfault
      have hbelow : (focus.children.flatMap Focus.preorder).filter Focus.isTopmostFault = [] := by
        rw [List.filter_eq_nil_iff]
        intro below hmem
        obtain ⟨child, hchild, hbelow⟩ := List.mem_flatMap.mp hmem
        simp [Focus.not_topmost_below hfault hchild hbelow]
      rw [ofNode_of_faulty source hfault, Focus.preorder_eq, List.filter_cons_of_pos htopmost,
        hbelow]
      rfl
    | false =>
      have htopmost : ¬ focus.isTopmostFault = true := by
        rw [Focus.isTopmostFault_of_clear hclear, hfault]
        exact Bool.false_ne_true
      rw [ofNode_of_not_faulty source hfault]
      split
      · rw [Focus.preorder_eq, List.filter_cons_of_neg htopmost, List.filter_flatMap,
          List.map_flatMap, ← Focus.map_node_children, List.flatMap_map]
        apply List.flatMap_congr
        intro child hchild
        exact ih child hchild (hflags.of_child hchild) (hclear.of_child hfault hchild)
      · next hclean => rw [Focus.filter_topmost_of_clean hflags hclean, List.map_nil]

/-! ### The walk with a stack -/

/-- Push nodes on a stack, so that the last of them is on top. -/
def push (waiting nodes : List Node) : List Node :=
  nodes.foldl (fun stack node ↦ node :: stack) waiting

private theorem push_reverse (waiting nodes : List Node) :
    push waiting nodes.reverse = nodes ++ waiting := by
  rw [push, List.foldl_reverse, List.foldr_cons_eq_append, List.map_id']

private theorem sum_sizeOf_le (nodes : List Node) : (nodes.map sizeOf).sum ≤ sizeOf nodes := by
  induction nodes with
  | nil => simp
  | cons node nodes ih =>
    rw [List.map_cons, List.sum_cons, List.cons.sizeOf_spec]
    omega

private theorem sum_sizeOf_lt_cons (node : Node) (waiting : List Node) :
    (waiting.map sizeOf).sum < ((node :: waiting).map sizeOf).sum := by
  obtain ⟨label, children⟩ := node
  rw [List.map_cons, List.sum_cons, Node.mk.sizeOf_spec]
  omega

private theorem sum_sizeOf_push_lt (node : Node) (waiting : List Node) :
    ((push waiting node.children.reverse).map sizeOf).sum <
      ((node :: waiting).map sizeOf).sum := by
  obtain ⟨label, children⟩ := node
  have hchildren := sum_sizeOf_le children
  rw [push_reverse, Node.children, List.map_append, List.sum_append, List.map_cons, List.sum_cons,
    Node.mk.sizeOf_spec]
  omega

/-- A walk that keeps the nodes still to visit on a stack, the top first. What it finds goes after
what was found before. An issue is not looked into, and a node that is flagged gives way to its
children, which are pushed in reverse so that the first of them is on top. -/
def walk (source : Source) (found : List SyntaxIssue) : List Node → List SyntaxIssue
  | [] => found
  | node :: waiting =>
    if node.missing then
      walk source (found ++ [⟨source.row node.start + 1, .expected node.kind⟩]) waiting
    else if node.error then
      walk source (found ++ [⟨source.row node.start + 1, problemAt (node.text source)⟩]) waiting
    else if node.hasError then walk source found (push waiting node.children.reverse)
    else walk source found waiting
termination_by stack => (stack.map sizeOf).sum
decreasing_by
  · exact sum_sizeOf_lt_cons node waiting
  · exact sum_sizeOf_lt_cons node waiting
  · exact sum_sizeOf_push_lt node waiting
  · exact sum_sizeOf_lt_cons node waiting

/-- The issues still to be found are those in the nodes on the stack, the topmost first. -/
theorem walk_eq (source : Source) (found : List SyntaxIssue) (stack : List Node) :
    walk source found stack = found ++ stack.flatMap (ofNode source) := by
  fun_induction walk source found stack with
  | case1 found => rw [List.flatMap_nil, List.append_nil]
  | case2 found node waiting hmissing ih =>
    have hfault : node.isFaulty = true := by rw [Node.isFaulty, hmissing, Bool.true_or]
    rw [ih, List.flatMap_cons, ofNode_of_faulty source hfault, ofFault, if_pos hmissing,
      List.append_assoc]
  | case3 found node waiting hmissing herror ih =>
    have hfault : node.isFaulty = true := by rw [Node.isFaulty, herror, Bool.or_true]
    rw [ih, List.flatMap_cons, ofNode_of_faulty source hfault, ofFault, if_neg hmissing,
      List.append_assoc]
  | case4 found node waiting hmissing herror hflag ih =>
    have hsound : node.isFaulty = false := by simp [Node.isFaulty, hmissing, herror]
    rw [ih, push_reverse, List.flatMap_append, List.flatMap_cons,
      ofNode_of_not_faulty source hsound, if_pos hflag]
  | case5 found node waiting hmissing herror hclean ih =>
    have hsound : node.isFaulty = false := by simp [Node.isFaulty, hmissing, herror]
    rw [ih, List.flatMap_cons, ofNode_of_not_faulty source hsound, if_neg hclean, List.nil_append]

end SyntaxIssue

namespace SourceFile

/-- What a parser promises of a tree: flags tell where the faults are, and nodes start in
pre-order. -/
structure WellParsed (file : SourceFile) : Prop where
  flagged : file.rootFocus.Flagged
  ordered : file.rootFocus.preorder.Pairwise fun first second ↦
    first.node.start ≤ second.node.start

instance (file : SourceFile) : Decidable file.WellParsed :=
  decidable_of_iff (file.rootFocus.Flagged ∧ file.rootFocus.preorder.Pairwise fun first second ↦
      first.node.start ≤ second.node.start)
    ⟨fun h ↦ ⟨h.1, h.2⟩, fun h ↦ ⟨h.flagged, h.ordered⟩⟩

/-- The faulty nodes with none above them, in pre-order. -/
def topmostFaults (file : SourceFile) : List Focus :=
  file.rootFocus.preorder.filter Focus.isTopmostFault

/-- No node of the file is faulty. -/
def Intact (file : SourceFile) : Prop :=
  ∀ focus ∈ file.rootFocus.preorder, focus.node.isFaulty = false

instance (file : SourceFile) : Decidable file.Intact :=
  inferInstanceAs (Decidable (∀ focus ∈ file.rootFocus.preorder, focus.node.isFaulty = false))

/-- The lines on which faulty nodes start. -/
def faultLines (file : SourceFile) : Set Nat :=
  { line | ∃ focus ∈ file.rootFocus.preorder,
      focus.node.isFaulty = true ∧ line = file.source.row focus.node.start + 1 }

variable {file : SourceFile}

/-- The issues of a file are what a walk with a stack finds that starts at the root. -/
theorem issues_eq_walk (file : SourceFile) :
    file.issues =
      if file.root.hasError then SyntaxIssue.walk file.source [] [file.root] else [] := by
  rw [issues, SyntaxIssue.walk_eq, List.nil_append, List.flatMap_singleton]

private theorem clear_rootFocus (file : SourceFile) : file.rootFocus.Clear := by
  simp [Focus.Clear, rootFocus]

/-- The issues of a file are its topmost faults in pre-order. -/
theorem issues_eq_map (h : file.WellParsed) :
    file.issues = file.topmostFaults.map fun fault ↦
      SyntaxIssue.ofFault file.source fault.node := by
  rw [issues, topmostFaults]
  split
  · exact SyntaxIssue.ofNode_eq_map h.flagged file.clear_rootFocus
  · next hclean => rw [Focus.filter_topmost_of_clean h.flagged hclean, List.map_nil]

private theorem head?_issues (h : file.WellParsed) :
    file.issues.head? = (file.rootFocus.preorder.find? fun focus ↦ focus.node.isFaulty).map
      fun fault ↦ SyntaxIssue.ofFault file.source fault.node := by
  rw [issues_eq_map h, List.head?_map, topmostFaults, List.head?_filter,
    Focus.find?_isFaulty file.clear_rootFocus]

private theorem issues_eq_nil_iff (h : file.WellParsed) : file.issues = [] ↔ file.Intact := by
  rw [← List.head?_eq_none_iff, head?_issues h, Option.map_eq_none_iff, List.find?_eq_none, Intact]
  simp only [Bool.not_eq_true]

private theorem pairwise_issues (h : file.WellParsed) :
    file.issues.Pairwise fun first second ↦ first.line ≤ second.line := by
  rw [issues_eq_map h, List.pairwise_map]
  refine (h.ordered.filter _).imp ?_
  intro first second hstart
  exact Nat.succ_le_succ (file.source.row_mono hstart)

private theorem isLeast_of_head? (h : file.WellParsed) {issue : SyntaxIssue}
    (hissue : file.issues.head? = some issue) : IsLeast file.faultLines issue.line := by
  rw [head?_issues h, Option.map_eq_some_iff] at hissue
  obtain ⟨first, hfind, rfl⟩ := hissue
  obtain ⟨hfault, before, after, hsplit, hbefore⟩ := List.find?_eq_some_iff_append.mp hfind
  refine ⟨⟨first, List.mem_of_find?_eq_some hfind, hfault, rfl⟩, ?_⟩
  rintro line ⟨other, hother, hbad, rfl⟩
  have hordered := h.ordered
  rw [hsplit, List.pairwise_append, List.pairwise_cons] at hordered
  rw [hsplit, List.mem_append, List.mem_cons] at hother
  rcases hother with hother | rfl | hother
  · have hsound := hbefore other hother
    simp [hbad] at hsound
  · exact le_rfl
  · exact Nat.succ_le_succ (file.source.row_mono (hordered.2.1.1 other hother))

end SourceFile

namespace Project

/-- What the check of the syntax finds. A walk with a stack finds the issues of a file. They are its
topmost faults, in pre-order and at different places, with lines that never go back, and there is
none exactly if no node is faulty. So a project passes exactly if no node of any file is faulty;
otherwise the first file with a fault is reported, and with the smallest line of its faults. -/
theorem checkSyntax_faults :
    (∀ file : SourceFile, file.issues =
      if file.root.hasError then SyntaxIssue.walk file.source [] [file.root] else []) ∧
    (∀ file : SourceFile, file.WellParsed →
      (file.issues = file.topmostFaults.map fun fault ↦
        SyntaxIssue.ofFault file.source fault.node) ∧
      (file.topmostFaults.Pairwise fun first second ↦ first.address ≠ second.address) ∧
      (file.issues.Pairwise fun first second ↦ first.line ≤ second.line) ∧
      (file.issues = [] ↔ file.Intact)) ∧
    ∀ project : Project, (∀ file ∈ project.files, file.WellParsed) →
      (project.checkSyntax = .ok () ↔ ∀ file ∈ project.files, file.Intact) ∧
      ∀ before file after, project.files = before ++ file :: after →
        (∀ earlier ∈ before, earlier.Intact) → ¬ file.Intact →
          ∃ issue, project.checkSyntax = .error (.unreadable file.path issue) ∧
            file.issues.head? = some issue ∧ IsLeast file.faultLines issue.line := by
  refine ⟨SourceFile.issues_eq_walk, fun file h ↦ ⟨SourceFile.issues_eq_map h,
    (Focus.pairwise_preorder _).filter _, SourceFile.pairwise_issues h,
    SourceFile.issues_eq_nil_iff h⟩, fun project h ↦ ⟨?_, ?_⟩⟩
  · rw [checkSyntax_eq_ok_iff]
    exact forall₂_congr fun file hfile ↦ SourceFile.issues_eq_nil_iff (h file hfile)
  · intro before file after hfiles hbefore hbroken
    have hparsed : ∀ other ∈ before ++ file :: after, other.WellParsed := hfiles ▸ h
    have hfile : file.WellParsed := hparsed file (by simp)
    cases hissues : file.issues with
    | nil => exact absurd ((SourceFile.issues_eq_nil_iff hfile).mp hissues) hbroken
    | cons issue others =>
      have hhead : file.issues.head? = some issue := by rw [hissues, List.head?_cons]
      refine ⟨issue, ?_, by rw [List.head?_cons], SourceFile.isLeast_of_head? hfile hhead⟩
      apply checkSyntax_of_firstIssue
      refine ⟨before, after, others, hfiles, hissues, ?_⟩
      intro earlier hearlier
      have hclean : earlier.WellParsed := hparsed earlier (List.mem_append_left _ hearlier)
      exact (SourceFile.issues_eq_nil_iff hclean).mpr (hbefore earlier hearlier)

/-- A file that can be read. -/
def readableFile : SourceFile where
  path := ⟨"a.ts"⟩
  source := .ofString ";\n"
  root := .mk { kind := "program", stop := 2 } [
    .mk { kind := "empty_statement", stop := 1 } [
      .mk { kind := ";", named := false, stop := 1 } []]]

/-- A file with a stray bracket on its first line, and on its third an unfinished statement with a
missing name in it. -/
def unfinishedFile : SourceFile where
  path := ⟨"b.ts"⟩
  source := .ofString "let a = ];\nlet b = 1\nlet c = \n"
  root := .mk { kind := "program", stop := 30, hasError := true } [
    .mk { kind := "lexical_declaration", stop := 10, hasError := true } [
      .mk { kind := "let", named := false, stop := 3 } [],
      .mk { kind := "ERROR", error := true, hasError := true, start := 8, stop := 9 } [
        .mk { kind := "]", named := false, start := 8, stop := 9 } []],
      .mk { kind := ";", named := false, start := 9, stop := 10 } []],
    .mk { kind := "lexical_declaration", start := 11, stop := 20 } [],
    .mk { kind := "ERROR", error := true, hasError := true, start := 21, stop := 28 } [
      .mk { kind := "let", named := false, start := 21, stop := 24 } [],
      .mk { kind := "identifier", missing := true, hasError := true, start := 28, stop := 28 } []]]

/-- The missing name lies in an error and is not reported apart from it, and of the two errors the
project is refused with the first. -/
theorem checkSyntax_faults_unfinished :
    readableFile.WellParsed ∧ unfinishedFile.WellParsed ∧
    (unfinishedFile.topmostFaults.map Focus.address = [[1, 0], [2]]) ∧
    unfinishedFile.issues = [⟨1, .unexpected "]"⟩, ⟨3, .unexpected "let c ="⟩] ∧
    Project.checkSyntax ⟨⟨""⟩, [readableFile, unfinishedFile], 2⟩ =
      .error (.unreadable ⟨"b.ts"⟩ ⟨1, .unexpected "]"⟩) ∧
    IsLeast unfinishedFile.faultLines 1 := by
  have hreadable : readableFile.WellParsed := by decide
  have hunfinished : unfinishedFile.WellParsed := by decide
  obtain ⟨-, hfile, hproject⟩ := checkSyntax_faults
  have hissues : unfinishedFile.issues = [⟨1, .unexpected "]"⟩, ⟨3, .unexpected "let c ="⟩] := by
    rw [(hfile unfinishedFile hunfinished).1]
    decide +kernel
  obtain ⟨-, hfirst⟩ := hproject ⟨⟨""⟩, [readableFile, unfinishedFile], 2⟩
    (by simpa using ⟨hreadable, hunfinished⟩)
  obtain ⟨issue, hcheck, hhead, hleast⟩ := hfirst [readableFile] unfinishedFile [] rfl
    (by decide) (by decide)
  obtain rfl : ⟨1, .unexpected "]"⟩ = issue := by simpa [hissues] using hhead
  exact ⟨hreadable, hunfinished, by decide, hissues, hcheck, hleast⟩

end Project

end PropDoc
