import PropDoc.Proofs.Comment.Margin
import PropDoc.Proofs.Comment.Section

/-!
# Text of comments

A line of text that is gathered from a comment holds no characters but those of the line it is read
from. So it is one line, and the text of a block, taken apart at its newlines, has the paragraphs of
the block.
-/

namespace PropDoc.Comment

private theorem inlineText_subset (content : List Char) : inlineText content ⊆ content := by
  rw [inlineText]
  split
  · next label hcut =>
    rw [Text.cutAt?_eq_some hcut]
    exact fun c hc ↦ List.mem_append_right _
      (List.mem_cons_of_mem _ ((Text.trim_sublist label).subset hc))
  · exact (Text.trim_sublist content).subset

/-- A token adds no characters to the text but some that it is read from. -/
theorem Token.content_meaning_subset (tags : TagSet) (token : Token) :
    (token.meaning tags).content ⊆ token.source := by
  cases token with
  | char | code | openCode | openInline | openBrace | closeBrace | bareAtSign =>
    exact List.Subset.refl _
  | escaped c => exact List.subset_cons_self _ _
  | inline name content =>
    rw [meaning]
    split
    · exact List.nil_subset _
    · split
      · rw [Meaning.content, source]
        intro c hc
        have hcontent := inlineText_subset content hc
        simp [hcontent]
      · exact List.nil_subset _
      · exact List.nil_subset _
  | tag name =>
    rw [meaning]
    split
    · exact List.Subset.refl _
    · split
      · exact List.Subset.refl _
      · exact List.nil_subset _
      · exact List.nil_subset _

namespace Event

private theorem subset_of_mem_ofMeanings {number : Nat} {before line : List Char}
    {meanings : List Meaning} (h : text line ∈ ofMeanings number before meanings) :
    line ⊆ before ++ meanings.flatMap Meaning.content := by
  fun_induction ofMeanings number before meanings with
  | case1 before =>
    obtain rfl : line = before := by simpa using h
    exact List.subset_append_left _ _
  | case2 before content rest ih =>
    rw [List.flatMap_cons, ← List.append_assoc]
    exact ih h
  | case3 before flaw content rest ih =>
    rw [List.flatMap_cons, ← List.append_assoc]
    exact ih (by simpa using h)
  | case4 before name rest ih =>
    exact ih (by simpa using h)
  | case5 before tag binding rest ih =>
    rcases List.mem_append.mp h with hbefore | hrest
    · split at hbefore
      · cases hbefore
      · obtain rfl : line = before := by simpa using hbefore
        exact List.subset_append_left _ _
    · exact List.subset_append_of_subset_right before (ih (by simpa using hrest))

/-- What is gathered from a line holds no other characters than the line. -/
theorem subset_of_mem_ofLine {tags : TagSet} {number : Nat} {line shown : List Char}
    (h : text shown ∈ ofLine tags number line) : shown ⊆ line := by
  rw [ofLine] at h
  intro c hc
  have hmem := subset_of_mem_ofMeanings h hc
  rw [List.nil_append, List.flatMap_map, List.mem_flatMap] at hmem
  obtain ⟨token, htoken, hcontent⟩ := hmem
  rw [← Token.sources_scan true line, Token.sources, List.mem_flatMap]
  exact ⟨token, htoken, Token.content_meaning_subset tags token hcontent⟩

/-- Each line of text keeps to the characters of one of the lines that are read. -/
theorem exists_of_mem_ofLines {tags : TagSet} {inFence : Bool} {number : Nat}
    {lines : List (List Char)} {shown : List Char}
    (h : text shown ∈ ofLines tags inFence number lines) : ∃ line ∈ lines, shown ⊆ line := by
  have hself {line : List Char} (heq : text shown = text line) : shown ⊆ line := by
    rw [Event.text.inj heq]
    exact List.Subset.refl line
  fun_induction ofLines tags inFence number lines with
  | case1 => cases List.mem_singleton.mp h
  | case2 => cases h
  | case3 inFence number line lines _ ih =>
    rw [List.exists_mem_cons_iff]
    exact (List.mem_cons.mp h).imp hself ih
  | case4 number line lines _ ih =>
    rw [List.exists_mem_cons_iff]
    exact (List.mem_cons.mp h).imp hself ih
  | case5 inFence number line lines _ _ ih =>
    rw [List.exists_mem_cons_iff]
    exact (List.mem_append.mp h).imp subset_of_mem_ofLine ih

private theorem mem_of_mem_leadingText {events : List Event} {line : List Char}
    (h : line ∈ leadingText events) : text line ∈ events := by
  fun_induction leadingText events with
  | case1 => cases h
  | case2 => cases h
  | case3 first rest ih =>
    rcases List.mem_cons.mp h with rfl | hrest
    · exact List.mem_cons_self
    · exact List.mem_cons_of_mem _ (ih hrest)
  | case4 name rest ih => exact List.mem_cons_of_mem _ (ih h)
  | case5 diagnostic rest ih => exact List.mem_cons_of_mem _ (ih h)

end Event

namespace Block

private theorem text_mem_of_mem_ofEvents {events : List Event} {block : Block}
    (hblock : block ∈ ofEvents events) {line : List Char} (hline : line ∈ block.lines) :
    .text line ∈ events := by
  fun_induction ofEvents events with
  | case1 => cases hblock
  | case2 tag binding number rest ih =>
    rcases List.mem_cons.mp hblock with rfl | hrest
    · exact List.mem_cons_of_mem _ (Event.mem_of_mem_leadingText hline)
    · exact List.mem_cons_of_mem _ (ih hrest)
  | case3 first rest ih => exact List.mem_cons_of_mem _ (ih hblock)
  | case4 name rest ih => exact List.mem_cons_of_mem _ (ih hblock)
  | case5 diagnostic rest ih => exact List.mem_cons_of_mem _ (ih hblock)

end Block

private theorem newline_not_mem_of_mem_bodyLines {body line : List Char}
    (h : line ∈ bodyLines body) : '\n' ∉ line := by
  rw [bodyLines_eq_map_shown, List.mem_map] at h
  obtain ⟨row, hrow, rfl⟩ := h
  intro hnewline
  exact not_mem_of_mem_splitOn hrow
    ((List.rdropWhile_prefix _ _).subset ((dropMargin_suffix _).subset hnewline))

private theorem Event.newline_not_mem_of_mem_ofComment {tags : TagSet} {text line : List Char}
    {firstLine : Nat} (h : .text line ∈ ofComment tags text firstLine) : '\n' ∉ line := by
  rw [ofComment] at h
  split at h
  · cases List.mem_singleton.mp h
  · obtain ⟨row, hrow, hsubset⟩ := exists_of_mem_ofLines h
    exact fun hnewline ↦ newline_not_mem_of_mem_bodyLines hrow (hsubset hnewline)

/-- The lines that are gathered from a comment, in its summary and in its blocks, are lines: none
holds a newline. -/
theorem newline_not_mem_read (tags : TagSet) (text : String) (firstLine : Nat) :
    (∀ line ∈ (read tags text firstLine).doc.summaryLines, '\n' ∉ line) ∧
    ∀ block ∈ (read tags text firstLine).doc.blocks, ∀ line ∈ block.lines, '\n' ∉ line := by
  rw [read_eq_ofEvents, Reading.ofEvents]
  constructor
  · exact fun line hline ↦
      Event.newline_not_mem_of_mem_ofComment (Event.mem_of_mem_leadingText hline)
  · intro block hblock line hline
    obtain ⟨bare, hbare, rfl⟩ := List.mem_map.mp hblock
    rw [Block.settle_eq] at hline
    exact Event.newline_not_mem_of_mem_ofComment (Block.text_mem_of_mem_ofEvents hbare hline)

/-- The text of a block has the paragraphs of the block. -/
theorem paragraphs_text_of_mem_read {tags : TagSet} {text : String} {firstLine : Nat}
    {block : Block} (h : block ∈ (read tags text firstLine).doc.blocks) :
    paragraphs (block.text.toList.splitOn '\n') = paragraphs block.lines :=
  paragraphs_splitOn_text ((newline_not_mem_read tags text firstLine).2 block h)

end PropDoc.Comment
