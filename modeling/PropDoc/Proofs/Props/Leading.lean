import Mathlib.Data.List.Nodup
import PropDoc.Proofs.List
import PropDoc.Proofs.Props.Description
import PropDoc.Proofs.SourceFile.Issue
import PropDoc.Proofs.Syntax.Preorder

/-!
# Which comments lead a statement

Right before a statement stands a run of comments. Those that start on the row where the sibling
before the run ends trail that sibling. In a tree whose nodes are well placed rows do not go back,
so the comments that trail come first: what leads the statement is the rest of the run, up to the
statement itself. Its first comment is the one from which descriptions are filled in.
-/

namespace PropDoc

open PropDoc.Syntax PropDoc.Comment

/-- The children of a node are some siblings, the last of which is no comment, then a run of
comments, then a statement and what follows it. -/
structure LeadingRun (parent anchor : Focus) (before run after : List Focus) : Prop where
  siblings : parent.children = before ++ run ++ anchor :: after
  comments : ∀ comment ∈ run, comment.node.isComment = true
  bounded : ∀ sibling ∈ before.getLast?, sibling.node.isComment = false

/-- A comment starts on the row where the last of the siblings before its run ends. -/
def TrailsLast (source : Source) (before : List Focus) (comment : Focus) : Prop :=
  ∃ sibling, before.getLast? = some sibling ∧
    comment.node.startRow source = sibling.node.stopRow source

instance (source : Source) (before : List Focus) (comment : Focus) :
    Decidable (TrailsLast source before comment) :=
  match h : before.getLast? with
  | none => isFalse fun ⟨_, hsome, _⟩ ↦ by simp [h] at hsome
  | some sibling =>
    decidable_of_iff (comment.node.startRow source = sibling.node.stopRow source)
      ⟨fun hrow ↦ ⟨sibling, h, hrow⟩, fun ⟨_, hsome, hrow⟩ ↦ by
        rw [h, Option.some.injEq] at hsome
        rwa [hsome]⟩

/-- How many comments of a run trail the last of the siblings before it. -/
def trailing (source : Source) (before run : List Focus) : Nat :=
  run.countP fun comment ↦ decide (TrailsLast source before comment)

/-- A table as a comment that was read fills it in. -/
def PropTable.filledFrom (table : PropTable) (file : SourceFile) (reading : Reading) :
    Except Error Described :=
  match reading.diagnostics.head? with
  | some diagnostic => .error (.faultyComment file.path diagnostic)
  | none => .ok ⟨reading.doc.summary, (descriptionsIn reading.doc).foldl PropTable.describe table⟩

variable {source : Source} {parent anchor comment : Focus} {before run after : List Focus}

/-! ### The run before a statement -/

/-- Every child has a run of comments before it. -/
theorem exists_leadingRun (h : anchor ∈ parent.children) :
    ∃ before run after, LeadingRun parent anchor before run after := by
  obtain ⟨earlier, after, hsiblings, -⟩ := Focus.exists_siblings h
  obtain ⟨comments, beyond, hsplit, hcomments, hbeyond⟩ :=
    PropTable.exists_comments_append earlier.reverse
  refine ⟨beyond.reverse, comments.reverse, after, ?_, ?_, ?_⟩
  · rw [hsiblings, ← List.reverse_append, ← hsplit, List.reverse_reverse]
  · simpa using hcomments
  · simpa using hbeyond

namespace LeadingRun

private theorem mem_children (h : LeadingRun parent anchor before run after) :
    anchor ∈ parent.children := by
  rw [h.siblings]
  simp

/-- The siblings before a statement are the run and what stands before it, nearest first. -/
theorem earlierSiblings_eq (h : LeadingRun parent anchor before run after) :
    anchor.earlierSiblings = run.reverse ++ before.reverse := by
  obtain ⟨earlier, later, hsiblings, hearlier⟩ := Focus.exists_siblings h.mem_children
  have hsame : earlier = before ++ run :=
    (split_unique (hsiblings ▸ parent.nodup_children) (hsiblings.symm.trans h.siblings)).1
  rw [hearlier, hsame, List.reverse_append]

private theorem trails_eq (comment : Focus) :
    trails source before.reverse comment = decide (TrailsLast source before comment) := by
  rw [trails, List.head?_reverse]
  cases hlast : before.getLast? with
  | none => simp [TrailsLast, hlast]
  | some sibling => simp [TrailsLast, hlast, Bool.beq_eq_decide_eq]

private theorem leadingComments_eq_filter (h : LeadingRun parent anchor before run after) :
    leadingComments source anchor =
      run.filter fun comment ↦ !decide (TrailsLast source before comment) := by
  rw [PropTable.leadingComments_of_append h.earlierSiblings_eq (by simpa using h.comments)
    (by simpa using h.bounded), List.reverse_reverse]
  simp only [trails_eq]

/-- Rows do not go back along the run: before a comment that trails all comments do. -/
theorem pairwise_trailsLast (source : Source) (h : LeadingRun parent anchor before run after)
    (hplaced : parent.WellPlaced) :
    run.Pairwise fun first second ↦
      TrailsLast source before second → TrailsLast source before first := by
  have hchildren := hplaced.children_apart
  rw [h.siblings, List.append_assoc, List.pairwise_append] at hchildren
  obtain ⟨-, hrun, hbefore⟩ := hchildren
  refine (List.pairwise_append.mp hrun).1.imp_of_mem ?_
  rintro first second hfirst - hapart ⟨sibling, hlast, hrow⟩
  refine ⟨sibling, hlast, le_antisymm ?_ ?_⟩
  · have hchild : first ∈ parent.children := by simp [h.siblings, hfirst]
    have hextent : first.node.start ≤ first.node.stop :=
      (hplaced.of_mem (Focus.mem_preorder_of_mem_children parent.mem_preorder_self
        hchild)).start_le_stop
    rw [← hrow]
    exact source.row_mono (hextent.trans hapart)
  · exact source.row_mono
      (hbefore sibling (List.mem_of_getLast? hlast) first (List.mem_append_left _ hfirst))

/-- The comments of the run that trail come first, and none of the others trails. -/
theorem trailsLast_take_drop (source : Source) (h : LeadingRun parent anchor before run after)
    (hplaced : parent.WellPlaced) :
    (∀ comment ∈ run.take (trailing source before run), TrailsLast source before comment) ∧
      ∀ comment ∈ run.drop (trailing source before run), ¬ TrailsLast source before comment := by
  have hpassed := h.pairwise_trailsLast source hplaced
  have hsplit := take_drop_countP (p := fun comment ↦ decide (TrailsLast source before comment))
    (hpassed.imp fun himp ↦ by simpa using himp)
  simpa [trailing] using hsplit

/-- What leads a statement is the run without the comments that trail. -/
theorem leadingComments_eq_drop (h : LeadingRun parent anchor before run after)
    (hplaced : parent.WellPlaced) :
    leadingComments source anchor = run.drop (trailing source before run) := by
  obtain ⟨htrail, hlead⟩ := h.trailsLast_take_drop source hplaced
  rw [h.leadingComments_eq_filter]
  conv_lhs => rw [← List.take_append_drop (trailing source before run) run]
  rw [List.filter_append, List.filter_eq_nil_iff.mpr (by simpa using htrail),
    List.filter_eq_self.mpr (by simpa using hlead), List.nil_append]

private theorem exists_next (h : LeadingRun parent anchor before run after)
    (hanchor : anchor.node.isComment = false) (hcomment : comment ∈ run) :
    ∃ earlier later, parent.children = earlier ++ comment :: later ∧
      (later.find? fun sibling ↦ !sibling.node.isComment) = some anchor := by
  obtain ⟨first, last, rfl⟩ := List.append_of_mem hcomment
  refine ⟨before ++ first, last ++ anchor :: after, by simp [h.siblings], ?_⟩
  have hnone : (last.find? fun sibling ↦ !sibling.node.isComment) = none := by
    rw [List.find?_eq_none]
    intro sibling hsibling
    simp [h.comments sibling (by simp [hsibling])]
  rw [List.find?_append, hnone, Option.none_or, List.find?_cons_of_pos (by simp [hanchor])]

end LeadingRun

/-- What leads one statement does not lead another. -/
theorem eq_of_mem_leadingComments {other : Focus} (hanchor : anchor ∈ parent.children)
    (hother : other ∈ parent.children) (hstatement : anchor.node.isComment = false)
    (hstatement' : other.node.isComment = false) (h : comment ∈ leadingComments source anchor)
    (h' : comment ∈ leadingComments source other) : anchor = other := by
  obtain ⟨before, run, after, hrun⟩ := exists_leadingRun hanchor
  obtain ⟨before', run', after', hrun'⟩ := exists_leadingRun hother
  rw [hrun.leadingComments_eq_filter] at h
  rw [hrun'.leadingComments_eq_filter] at h'
  obtain ⟨earlier, later, hsplit, hnext⟩ := hrun.exists_next hstatement (List.mem_filter.mp h).1
  obtain ⟨earlier', later', hsplit', hnext'⟩ :=
    hrun'.exists_next hstatement' (List.mem_filter.mp h').1
  have hlater : later = later' := by
    rw [hsplit] at hsplit'
    exact (split_unique (hsplit ▸ parent.nodup_children) hsplit').2
  rw [hlater, hnext', Option.some.injEq] at hnext
  exact hnext.symm

/-- What leads a statement are siblings before it, in order. -/
theorem exists_sublist_leadingComments (source : Source) (h : anchor ∈ parent.children) :
    ∃ before after, parent.children = before ++ anchor :: after ∧
      (leadingComments source anchor).Sublist before := by
  obtain ⟨before, run, after, hrun⟩ := exists_leadingRun h
  refine ⟨before ++ run, after, hrun.siblings, ?_⟩
  rw [hrun.leadingComments_eq_filter]
  exact List.filter_sublist.trans (List.sublist_append_right before run)

/-! ### What the run comes to -/

private theorem bind_eq_elim (table : PropTable) (tags : TagSet) (file : SourceFile)
    (anchor : Focus) :
    table.bind tags file anchor =
      (leadingComments file.source anchor).head?.elim (.ok ⟨"", table⟩) fun comment ↦
        table.filledFrom file (file.readComment tags comment) := by
  rw [PropTable.bind]
  cases (leadingComments file.source anchor).head? with
  | none => rfl
  | some comment =>
    have hreading : Comment.read tags (file.text comment.node)
        (comment.node.startRow file.source + 1) = file.readComment tags comment := rfl
    simp only [Option.elim_some, hreading]
    cases hproblem : (file.readComment tags comment).diagnostics.head? with
    | none => simp only [PropTable.filledFrom, hproblem]
    | some diagnostic => simp only [PropTable.filledFrom, hproblem]

/-- In a tree whose nodes are well placed, let a run of comments stand right before a node, as long
as can be, and let some of them start on the row where the sibling before the run ends. These come
first in the run, and what leads the node is the rest of it, in order. Descriptions are filled in
from the earliest comment that does not trail. -/
theorem leadingComments_of_wellPlaced {file : SourceFile} (hplaced : file.rootFocus.WellPlaced)
    {anchor : Focus} (hanchor : anchor ∈ file.rootFocus.preorder) :
    (anchor.parent? = none → leadingComments file.source anchor = []) ∧
    ∀ parent, anchor.parent? = some parent →
      (∃ before run after, LeadingRun parent anchor before run after) ∧
      ∀ before run after, LeadingRun parent anchor before run after →
        leadingComments file.source anchor = run.drop (trailing file.source before run) ∧
        (∀ comment ∈ run.take (trailing file.source before run),
          TrailsLast file.source before comment) ∧
        (∀ comment ∈ run.drop (trailing file.source before run),
          ¬ TrailsLast file.source before comment) ∧
        ∀ (table : PropTable) (tags : TagSet),
          table.bind tags file anchor =
            (run.find? fun comment ↦ !decide (TrailsLast file.source before comment)).elim
              (.ok ⟨"", table⟩) fun comment ↦
                table.filledFrom file (file.readComment tags comment) := by
  refine ⟨?_, fun parent hparent ↦ ?_⟩
  · intro hnone
    have habove : anchor.above = [] := by
      unfold Focus.parent? at hnone
      split at hnone
      · assumption
      · cases hnone
    simp [leadingComments, Focus.earlierSiblings, habove]
  · obtain ⟨hmem, hchild⟩ : parent ∈ file.rootFocus.preorder ∧ anchor ∈ parent.children := by
      rcases Focus.exists_parent_of_mem_preorder hanchor with rfl | ⟨found, hfound, hchild⟩
      · cases hparent
      · rw [Focus.parent?_of_mem_children hchild, Option.some.injEq] at hparent
        exact hparent ▸ ⟨hfound, hchild⟩
    refine ⟨exists_leadingRun hchild, fun before run after hrun ↦ ?_⟩
    have hparentPlaced : parent.WellPlaced := hplaced.of_mem hmem
    obtain ⟨htrail, hlead⟩ := hrun.trailsLast_take_drop file.source hparentPlaced
    refine ⟨hrun.leadingComments_eq_drop hparentPlaced, htrail, hlead, fun table tags ↦ ?_⟩
    rw [bind_eq_elim, hrun.leadingComments_eq_filter, List.head?_filter]

/-- A file with two comments on the row of its first statement, the second of which ends on the next
row, before another comment and the comment on the second statement. -/
def sharedRows : SourceFile where
  path := ⟨"A.ts"⟩
  source := .ofString
    "let a = 1; /* x */ /* y\n*/ // z\n/** Doc */\nexport const A = 1;\n"
  root := .mk { kind := "program", stop := 63 } [
    .mk { kind := "lexical_declaration", stop := 10 } [],
    .mk { kind := "comment", start := 11, stop := 18 } [],
    .mk { kind := "comment", start := 19, stop := 26 } [],
    .mk { kind := "comment", start := 27, stop := 31 } [],
    .mk { kind := "comment", start := 32, stop := 42 } [],
    .mk { kind := "export_statement", start := 43, stop := 62 } []]

/-- Of four comments before a statement the first two trail what stands before them, and the others
lead it. -/
theorem leadingComments_of_wellPlaced_sharedRows :
    sharedRows.rootFocus.WellPlaced ∧
    ∃ anchor ∈ sharedRows.rootFocus.preorder, anchor.kind = "export_statement" ∧
      ∃ before run after, LeadingRun sharedRows.rootFocus anchor before run after ∧
        run.length = 4 ∧ trailing sharedRows.source before run = 2 ∧
        leadingComments sharedRows.source anchor = run.drop 2 := by
  have hplaced : sharedRows.rootFocus.WellPlaced := by decide
  let children := sharedRows.rootFocus.children
  let anchor : Focus := ⟨.mk { kind := "export_statement", start := 43, stop := 62 } [],
    [(sharedRows.root, 5)]⟩
  have hrun : LeadingRun sharedRows.rootFocus anchor (children.take 1)
      ((children.drop 1).take 4) [] := ⟨rfl, by decide, by decide⟩
  have hanchor : anchor ∈ sharedRows.rootFocus.preorder :=
    Focus.mem_preorder_of_mem_children (Focus.mem_preorder_self _) hrun.mem_children
  have htrailing : trailing sharedRows.source (children.take 1) ((children.drop 1).take 4) = 2 := by
    decide +kernel
  have houtcome := (leadingComments_of_wellPlaced hplaced hanchor).2 _ rfl
  refine ⟨hplaced, anchor, hanchor, rfl, _, _, _, hrun, rfl, htrailing, ?_⟩
  rw [(houtcome.2 _ _ _ hrun).1, htrailing]

end PropDoc
