import PropDoc.Comment.Doc
import PropDoc.Proofs.Comment.Escape
import PropDoc.Proofs.Comment.Grammar
import PropDoc.Proofs.Comment.Paragraph

/-!
# Writing comments and reading them back

A draft is a summary and descriptions of props, together with a layout: blanks before the star of
every line, and one of two line ends after it. Writing escapes the texts. Main statement: a
written comment is read without a problem, and the summary and the descriptions come back,
whatever the layout.
-/

namespace PropDoc.Comment

/-- Blanks at the start of a line. -/
structure Indent where
  chars : List Char
  blank : ∀ c ∈ chars, Text.isBlank c = true
  oneLine : '\n' ∉ chars

/-- How a line ends. -/
inductive LineEnd where
  | newline
  | returnNewline

/-- What a line end has before the newline. -/
def LineEnd.returns : LineEnd → List Char
  | newline => []
  | returnNewline => ['\r']

/-- A line of a written comment. -/
structure Row (α : Type) where
  indent : Indent
  content : α
  lineEnd : LineEnd

/-- A line of a summary. -/
structure SummaryLine where
  text : List Char
  oneLine : '\n' ∉ text

/-- The name of a prop and its description, which may be empty. -/
structure PropEntry where
  name : List Char
  description : List Char
  name_ne_nil : name ≠ []
  name_solid : ∀ c ∈ name, Text.isBlank c = false
  description_oneLine : '\n' ∉ description
  description_trimmed : Text.trim description = description

/-- The line of a summary in a comment. -/
def SummaryLine.line (summary : SummaryLine) : List Char := escape summary.text

/-- The line of a prop in a comment. -/
def PropEntry.line (entry : PropEntry) : List Char :=
  ['@', 'p', 'r', 'o', 'p', ' '] ++ escape entry.name ++ [' ', '-', ' '] ++
    escape entry.description

/-- What a block that describes the prop is read as. -/
def PropEntry.named (entry : PropEntry) : Named :=
  ⟨String.ofList entry.name, String.ofList entry.description⟩

/-- A line with its margin, up to the newline. -/
def Row.chars {α : Type} (line : α → List Char) (row : Row α) : List Char :=
  row.indent.chars ++ ['*', ' '] ++ line row.content ++ row.lineEnd.returns

/-- A comment to be written. -/
structure Draft where
  lineEnd : LineEnd
  summary : List (Row SummaryLine)
  props : List (Row PropEntry)
  closing : Indent

namespace Draft

/-- The lines after the opening delimiter, up to the line of the closing one. -/
def rows (draft : Draft) : List (List Char) :=
  draft.lineEnd.returns :: (draft.summary.map (Row.chars SummaryLine.line) ++
    draft.props.map (Row.chars PropEntry.line))

/-- What stands between the delimiters. -/
def body (draft : Draft) : List Char :=
  draft.rows.flatMap (· ++ ['\n']) ++ draft.closing.chars

/-- The comment as it is written. -/
def write (draft : Draft) : List Char := ['/', '*', '*'] ++ draft.body ++ ['*', '/']

end Draft

/-! ### Lines of a written comment -/

private theorem isBlank_of_return {c : Char} (h : (c == '\r') = true) : Text.isBlank c = true := by
  rw [beq_iff_eq.mp h]
  decide

private theorem eq_return_of_mem_returns {lineEnd : LineEnd} {c : Char}
    (h : c ∈ lineEnd.returns) : (c == '\r') = true := by
  cases lineEnd with
  | newline => cases h
  | returnNewline => simpa [LineEnd.returns] using h

private theorem dropReturns_escape (text : List Char) :
    Text.dropEndWhile (· == '\r') (escape text) = escape (Text.dropEndWhile (· == '\r') text) := by
  apply dropEndWhile_escape
  intro c hspecial
  simp only [isSpecial, List.contains_iff_mem, List.mem_cons, List.not_mem_nil, or_false]
    at hspecial
  rcases hspecial with rfl | rfl | rfl | rfl | rfl <;> decide

private theorem dropMargin_row {α : Type} (line : α → List Char) (row : Row α) :
    dropMargin (Text.dropEndWhile (· == '\r') (row.chars line)) =
      Text.dropEndWhile (· == '\r') (line row.content) := by
  have hrow : row.chars line =
      (row.indent.chars ++ ['*']) ++ ' ' :: (line row.content ++ row.lineEnd.returns) := by
    simp [Row.chars]
  rw [hrow, Text.dropEndWhile_append_cons (by decide),
    Text.dropEndWhile_append_of_forall fun c hc ↦ eq_return_of_mem_returns hc, dropMargin,
    List.append_assoc, Text.trimStart_append_of_blank row.indent.blank]
  rfl

private theorem dropMargin_of_blank {cs : List Char} (h : ∀ c ∈ cs, Text.isBlank c = true) :
    dropMargin cs = [] := by
  have hnil : Text.trimStart cs = [] := List.dropWhile_eq_nil_iff.mpr h
  rw [dropMargin, hnil]

private theorem splitOn_rows {rows : List (List Char)} (h : ∀ row ∈ rows, '\n' ∉ row)
    {last : List Char} (hlast : '\n' ∉ last) :
    (rows.flatMap (· ++ ['\n']) ++ last).splitOn '\n' = rows ++ [last] := by
  induction rows with
  | nil => exact List.splitOn_eq_singleton hlast
  | cons row rows ih =>
    rw [List.forall_mem_cons] at h
    rw [List.flatMap_cons, List.append_assoc, List.append_assoc, List.singleton_append,
      List.splitOn_append_cons_self_of_not_mem h.1, ih h.2]
    rfl

private theorem newline_not_mem_escape {text : List Char} (h : '\n' ∉ text) :
    '\n' ∉ escape text :=
  fun hmem ↦ h (mem_of_mem_escape hmem (by decide))

private theorem newline_not_mem_returns (lineEnd : LineEnd) : '\n' ∉ lineEnd.returns := by
  cases lineEnd <;> decide

private theorem newline_not_mem_row {α : Type} {line : α → List Char} {row : Row α}
    (h : '\n' ∉ line row.content) : '\n' ∉ row.chars line := by
  simp [Row.chars, row.indent.oneLine, h, newline_not_mem_returns]

namespace PropEntry

-- The content of a block that describes a prop, as it is read.
private def text (entry : PropEntry) : List Char :=
  [' '] ++ entry.name ++ [' ', '-', ' '] ++ entry.description

private theorem line_eq_escape_text (entry : PropEntry) :
    entry.line = ['@', 'p', 'r', 'o', 'p'] ++ escape entry.text := by
  have hspace : escape [' '] = [' '] := by decide
  have hhyphen : escape [' ', '-', ' '] = [' ', '-', ' '] := by decide
  rw [text, escape_append, escape_append, escape_append, hspace, hhyphen, line]
  simp

private theorem not_mem_name_of_blank {c : Char} (h : Text.isBlank c = true)
    (entry : PropEntry) : c ∉ entry.name := by
  intro hmem
  rw [entry.name_solid c hmem] at h
  cases h

private theorem newline_not_mem_line (entry : PropEntry) : '\n' ∉ entry.line := by
  have hname : '\n' ∉ entry.name := entry.not_mem_name_of_blank (by decide)
  simp [line, newline_not_mem_escape hname, newline_not_mem_escape entry.description_oneLine]

private theorem dropReturns_text (entry : PropEntry) :
    Text.dropEndWhile (· == '\r') entry.text = entry.text := by
  have hdescription := Text.dropEndWhile_eq_self_of_trimEnd (fun _ ↦ isBlank_of_return)
    (Text.trimEnd_eq_self_of_trim_eq_self entry.description_trimmed)
  have htext : entry.text = ([' '] ++ entry.name ++ [' ', '-']) ++ ' ' :: entry.description := by
    simp [text]
  rw [htext, Text.dropEndWhile_append_cons (by decide), hdescription]

private theorem dropReturns_line (entry : PropEntry) :
    Text.dropEndWhile (· == '\r') entry.line = entry.line := by
  have hne : escape entry.text ≠ [] := List.cons_ne_nil ' ' _
  rw [line_eq_escape_text, Text.dropEndWhile_append, dropReturns_escape, dropReturns_text,
    if_neg hne]

private theorem isFence_line (entry : PropEntry) : Event.isFence entry.line = false := rfl

end PropEntry

private theorem newline_not_mem_rows (draft : Draft) : ∀ row ∈ draft.rows, '\n' ∉ row := by
  rw [Draft.rows, List.forall_mem_cons, List.forall_mem_append, List.forall_mem_map,
    List.forall_mem_map]
  refine ⟨newline_not_mem_returns _, ?_, ?_⟩
  · exact fun row _ ↦ newline_not_mem_row (newline_not_mem_escape row.content.oneLine)
  · exact fun row _ ↦ newline_not_mem_row row.content.newline_not_mem_line

-- A line of a summary without carriage returns at its end.
private def strippedText (row : Row SummaryLine) : List Char :=
  Text.dropEndWhile (· == '\r') row.content.text

private theorem bodyLines_body (draft : Draft) :
    bodyLines draft.body =
      ([] :: draft.summary.map strippedText).map escape ++
        ((draft.props.map Row.content).map PropEntry.line ++ [[]]) := by
  have hopening : dropMargin (Text.dropEndWhile (· == '\r') draft.lineEnd.returns) = [] := by
    cases draft.lineEnd <;> rfl
  have hclosing : dropMargin (Text.dropEndWhile (· == '\r') draft.closing.chars) = [] :=
    dropMargin_of_blank fun c hc ↦
      draft.closing.blank c ((List.rdropWhile_prefix _ _).mem hc)
  have hsummary : ∀ row : Row SummaryLine, dropMargin (Text.dropEndWhile (· == '\r')
      (row.chars SummaryLine.line)) = escape (strippedText row) :=
    fun row ↦ (dropMargin_row _ row).trans (dropReturns_escape _)
  have hprop : ∀ row : Row PropEntry, dropMargin (Text.dropEndWhile (· == '\r')
      (row.chars PropEntry.line)) = row.content.line :=
    fun row ↦ (dropMargin_row _ row).trans row.content.dropReturns_line
  rw [bodyLines, Draft.body, splitOn_rows (newline_not_mem_rows draft) draft.closing.oneLine,
    Draft.rows]
  simp [hopening, hclosing, hsummary, hprop, Function.comp_def]

/-! ### Events of a written comment -/

/-- A tag set has the prop tag as the tag of blocks that describe props. -/
def DefinesProp (tags : TagSet) : Prop :=
  ∃ tag, tags.get? "@prop" = some tag ∧ tag.form = .block ∧ tag.binding = .prop

private theorem ofLine_line {tags : TagSet} (h : DefinesProp tags) (number : Nat)
    (entry : PropEntry) :
    Event.ofLine tags number entry.line = [.opens "@prop" .prop number, .text entry.text] := by
  obtain ⟨tag, hget, hform, hbinding⟩ := h
  have hlongest : LongestTagName (['p', 'r', 'o', 'p'] ++ escape entry.text)
      ['p', 'r', 'o', 'p'] := (longestTagName_iff _ _).mpr rfl
  have htag : Token.meaning tags (.tag ['@', 'p', 'r', 'o', 'p']) = .opens "@prop" .prop := by
    have hname : String.ofList ['@', 'p', 'r', 'o', 'p'] = "@prop" := rfl
    simp only [Token.meaning, hname, hget, hform, hbinding]
  rw [Event.ofLine, Token.ofLine, PropEntry.line_eq_escape_text, List.cons_append,
    scan_tag (by simp) hlongest, List.map_cons, htag, meanings_scan_escape, Event.ofMeanings,
    ofMeanings_map_text]
  rfl

-- The events of the lines that describe props, the first of which has the given number, and of
-- the line that closes the comment.
private def propEvents (number : Nat) : List PropEntry → List Event
  | [] => [.text []]
  | entry :: entries =>
    .opens "@prop" .prop number :: .text entry.text :: propEvents (number + 1) entries

private theorem ofLines_props {tags : TagSet} (h : DefinesProp tags) (number : Nat)
    (entries : List PropEntry) :
    Event.ofLines tags false number (entries.map PropEntry.line ++ [[]]) =
      propEvents number entries := by
  induction entries generalizing number with
  | nil =>
    have hempty : Event.ofLine tags number [] = [.text []] := ofLine_escape tags number []
    rw [List.map_nil, List.nil_append, Event.ofLines, hempty]
    rfl
  | cons entry entries ih =>
    rw [List.map_cons, List.cons_append, Event.ofLines, entry.isFence_line,
      if_neg Bool.false_ne_true, if_neg Bool.false_ne_true, ofLine_line h, ih]
    rfl

private theorem ofLines_texts (tags : TagSet) (number : Nat) (texts rest : List (List Char)) :
    Event.ofLines tags false number (texts.map escape ++ rest) =
      texts.map Event.text ++ Event.ofLines tags false (number + texts.length) rest := by
  induction texts generalizing number with
  | nil => rfl
  | cons text texts ih =>
    rw [List.map_cons, List.cons_append, Event.ofLines, isFence_escape,
      if_neg Bool.false_ne_true, if_neg Bool.false_ne_true, ofLine_escape, ih, List.length_cons,
      Nat.add_assoc number, Nat.add_comm 1]
    rfl

/-! ### Blocks of a written comment -/

namespace PropEntry

private theorem exists_name_eq_cons (entry : PropEntry) :
    ∃ c name, entry.name = c :: name ∧ Text.isBlank c = false := by
  obtain ⟨c, name, hname⟩ := List.exists_cons_of_ne_nil entry.name_ne_nil
  exact ⟨c, name, hname, entry.name_solid c (by simp [hname])⟩

private theorem trimStart_text (entry : PropEntry) :
    Text.trimStart entry.text = entry.name ++ ([' ', '-', ' '] ++ entry.description) := by
  obtain ⟨c, name, hname, hsolid⟩ := entry.exists_name_eq_cons
  rw [text, hname, List.append_assoc, List.append_assoc,
    Text.trimStart_append_of_blank (List.forall_mem_singleton.mpr (by decide)), List.cons_append,
    Text.trimStart_cons_of_not_blank hsolid]

private theorem trim_name (entry : PropEntry) : Text.trim entry.name = entry.name :=
  Text.trim_eq_self_of_not_blank entry.name_solid

private theorem splitNamed?_of_description_eq_nil {entry : PropEntry}
    (h : entry.description = []) :
    Block.splitNamed? (Text.trim entry.text) = some (entry.name, entry.description) := by
  have htrim : Text.trim entry.text = entry.name ++ [' ', '-'] := by
    rw [Text.trim, trimStart_text, h, Text.trimEnd, Text.dropEndWhile_append]
    exact if_neg (by decide)
  have hcut : Text.cut? [' ', '-', ' '] (entry.name ++ [' ', '-']) = none := by
    rw [Text.cut?_append_of_not_mem (entry.not_mem_name_of_blank (by decide))]
    rfl
  have hend : Text.trimEnd (entry.name ++ [' ', '-']) = entry.name ++ [' ', '-'] := by
    rw [Text.trimEnd, Text.dropEndWhile_append]
    exact if_neg (by decide)
  rw [Block.splitNamed?, htrim, hcut]
  dsimp only
  rw [hend, (Text.dropEnding?_eq_some_iff _ _ entry.name).mpr rfl, Option.map_some, trim_name, h]

private theorem splitNamed?_of_description_ne_nil {entry : PropEntry}
    (h : entry.description ≠ []) :
    Block.splitNamed? (Text.trim entry.text) = some (entry.name, entry.description) := by
  have htrim : Text.trim entry.text = entry.name ++ ([' ', '-', ' '] ++ entry.description) := by
    have hend := Text.trimEnd_eq_self_of_trim_eq_self entry.description_trimmed
    rw [Text.trim, trimStart_text, ← List.append_assoc, Text.trimEnd, Text.dropEndWhile_append,
      ← Text.trimEnd, hend, if_neg h]
  have hcut : Text.cut? [' ', '-', ' '] (entry.name ++ ([' ', '-', ' '] ++ entry.description)) =
      some (entry.name, entry.description) := by
    rw [Text.cut?_append_of_not_mem (entry.not_mem_name_of_blank (by decide))]
    simp [Text.cut?, List.isPrefixOf]
  rw [Block.splitNamed?, htrim, hcut]
  dsimp only
  rw [trim_name, entry.description_trimmed]

private theorem splitNamed?_trim_text (entry : PropEntry) :
    Block.splitNamed? (Text.trim entry.text) = some (entry.name, entry.description) := by
  by_cases h : entry.description = []
  · exact splitNamed?_of_description_eq_nil h
  · exact splitNamed?_of_description_ne_nil h

private theorem allBlank_text (entry : PropEntry) : Text.allBlank entry.text = false := by
  obtain ⟨c, name, hname, hsolid⟩ := entry.exists_name_eq_cons
  simp [Text.allBlank, text, hname, hsolid]

private theorem readNamed_eq_named {entry : PropEntry} {block : Block}
    {blanks : List (List Char)} (hlines : block.lines = entry.text :: blanks)
    (hblanks : ∀ line ∈ blanks, Text.allBlank line = true) :
    block.readNamed = .ok entry.named := by
  have hcontent : block.content = Text.trim entry.text := by
    rw [Block.content, hlines, paragraphs_cons_of_blank entry.allBlank_text hblanks]
    simp
  rw [Block.readNamed, hcontent, splitNamed?_trim_text]
  simp [entry.name_ne_nil, named]

end PropEntry

private theorem allBlank_of_mem_leadingText_propEvents {number : Nat} {entries : List PropEntry}
    {line : List Char} (h : line ∈ Event.leadingText (propEvents number entries)) :
    Text.allBlank line = true := by
  cases entries with
  | nil =>
    have hline : line = [] := by simpa [propEvents, Event.leadingText] using h
    rw [hline]
    rfl
  | cons entry entries => cases h

-- A block describes the prop of an entry.
private def Describes (block : Block) (entry : PropEntry) : Prop :=
  block.tag = "@prop" ∧ block.binding = .prop ∧ block.readNamed = .ok entry.named

private theorem forall₂_describes (number : Nat) (entries : List PropEntry) :
    List.Forall₂ Describes (Block.ofEvents (propEvents number entries)) entries := by
  induction entries generalizing number with
  | nil => exact .nil
  | cons entry entries ih =>
    refine .cons ⟨rfl, rfl, ?_⟩ (ih (number + 1))
    exact PropEntry.readNamed_eq_named rfl fun line hline ↦
      allBlank_of_mem_leadingText_propEvents hline

private theorem Describes.diagnostic?_eq_none {block : Block} {entry : PropEntry}
    (h : Describes block entry) : block.diagnostic? = none := by
  rw [Block.diagnostic?, h.2.1, h.2.2]
  rfl

private theorem Describes.settle {block : Block} {entry : PropEntry} (h : Describes block entry) :
    block.settle.tag = "@prop" ∧ block.settle.named = some entry.named := by
  rw [Block.settle, h.2.1, h.2.2]
  exact ⟨h.1, rfl⟩

private theorem diagnostics_of_forall₂ {blocks : List Block} {entries : List PropEntry}
    (h : List.Forall₂ Describes blocks entries) : blocks.filterMap Block.diagnostic? = [] := by
  induction h with
  | nil => rfl
  | cons hfirst _ ih => rw [List.filterMap_cons_none hfirst.diagnostic?_eq_none, ih]

private theorem settled_of_forall₂ {blocks : List Block} {entries : List PropEntry}
    (h : List.Forall₂ Describes blocks entries) :
    (blocks.map Block.settle).map (fun block ↦ (block.tag, block.named)) =
      entries.map fun entry ↦ ("@prop", some entry.named) := by
  induction h with
  | nil => rfl
  | cons hfirst _ ih => simp only [List.map_cons, hfirst.settle, ih]

/-! ### Reading a written comment -/

private theorem body?_write (draft : Draft) : body? draft.write = some draft.body := by
  rw [body?_eq_some_iff, Text.trim]
  have hstart : Text.trimStart draft.write = draft.write :=
    Text.trimStart_cons_of_not_blank (by decide) _
  have hend : Text.trimEnd draft.write = draft.write := by
    rw [Draft.write, Text.trimEnd, Text.dropEndWhile_append]
    exact if_neg (by decide)
  rw [hstart, hend, Draft.write]

private theorem leadingText_append (texts : List (List Char)) (events : List Event) :
    Event.leadingText (texts.map Event.text ++ events) = texts ++ Event.leadingText events := by
  induction texts with
  | nil => rfl
  | cons text texts ih => simp [Event.leadingText, ih]

private theorem blocks_append (texts : List (List Char)) (events : List Event) :
    Block.ofEvents (texts.map Event.text ++ events) = Block.ofEvents events := by
  induction texts with
  | nil => rfl
  | cons text texts ih => simp [Block.ofEvents, ih]

private theorem silent_of_mem_propEvents {number : Nat} {entries : List PropEntry}
    {event : Event} (h : event ∈ propEvents number entries) :
    event.diagnostic? = none ∧ event.modifier? = none := by
  fun_induction propEvents number entries with
  | case1 number =>
    rw [List.mem_singleton] at h
    rw [h]
    exact ⟨rfl, rfl⟩
  | case2 number entry entries ih =>
    rw [List.mem_cons, List.mem_cons] at h
    rcases h with rfl | rfl | hrest
    · exact ⟨rfl, rfl⟩
    · exact ⟨rfl, rfl⟩
    · exact ih hrest

private theorem silent_of_mem_append {texts : List (List Char)} {number : Nat}
    {entries : List PropEntry} {event : Event}
    (h : event ∈ texts.map Event.text ++ propEvents number entries) :
    event.diagnostic? = none ∧ event.modifier? = none := by
  rcases List.mem_append.mp h with htext | hprop
  · obtain ⟨text, -, rfl⟩ := List.mem_map.mp htext
    exact ⟨rfl, rfl⟩
  · exact silent_of_mem_propEvents hprop

-- The summary is not touched by carriage returns, by the empty line after the opening delimiter
-- or by the blank line before the closing one.
private theorem firstParagraph_written (draft : Draft) {blanks : List (List Char)}
    (hblanks : ∀ line ∈ blanks, Text.allBlank line = true) :
    firstParagraph ([] :: draft.summary.map strippedText ++ blanks) =
      firstParagraph (draft.summary.map fun row ↦ row.content.text) := by
  have htrim : ∀ line, Text.trim (Text.dropEndWhile (· == '\r') line) = Text.trim line :=
    Text.trim_dropEndWhile fun _ ↦ isBlank_of_return
  have hstripped : draft.summary.map strippedText =
      (draft.summary.map fun row ↦ row.content.text).map (Text.dropEndWhile (· == '\r')) := by
    rw [List.map_map]
    rfl
  rw [List.cons_append, firstParagraph_cons_of_blank rfl, firstParagraph_append_of_blank hblanks,
    ← head?_paragraphs, ← head?_paragraphs, hstripped, paragraphs_map_of_trim htrim]

private theorem read_write_eq_ofEvents {tags : TagSet} (h : DefinesProp tags) (draft : Draft)
    (firstLine : Nat) :
    ∃ number, read tags (String.ofList draft.write) firstLine =
      Reading.ofEvents (([] :: draft.summary.map strippedText).map Event.text ++
        propEvents number (draft.props.map Row.content)) := by
  rw [read, String.toList_ofList, body?_write]
  dsimp only
  rw [bodyLines_body, ofLines_texts, ofLines_props h]
  exact ⟨_, rfl⟩

/-- A written comment is read without a problem and without modifiers. Its summary is the first
paragraph of the summary lines, and its blocks describe the props, in order. -/
theorem read_write {tags : TagSet} (h : DefinesProp tags) (draft : Draft)
    (firstLine : Nat) :
    let reading := read tags (String.ofList draft.write) firstLine
    reading.diagnostics = [] ∧ reading.doc.modifiers = [] ∧
      reading.doc.summary =
        String.ofList (firstParagraph (draft.summary.map fun row ↦ row.content.text)) ∧
      reading.doc.blocks.map (fun block ↦ (block.tag, block.named)) =
        draft.props.map fun row ↦ ("@prop", some row.content.named) := by
  obtain ⟨number, hread⟩ := read_write_eq_ofEvents h draft firstLine
  have hblocks := forall₂_describes number (draft.props.map Row.content)
  rw [hread]
  refine ⟨?_, ?_, ?_, ?_⟩
  · rw [Reading.ofEvents, List.append_eq_nil_iff, List.filterMap_eq_nil_iff]
    rw [blocks_append]
    exact ⟨fun event hevent ↦ (silent_of_mem_append hevent).1, diagnostics_of_forall₂ hblocks⟩
  · exact List.filterMap_eq_nil_iff.mpr fun event hevent ↦ (silent_of_mem_append hevent).2
  · rw [Doc.summary, head?_paragraphs, Reading.ofEvents]
    dsimp only
    rw [leadingText_append, firstParagraph_written draft fun line hline ↦
      allBlank_of_mem_leadingText_propEvents hline]
  · rw [Reading.ofEvents]
    dsimp only
    rw [blocks_append, settled_of_forall₂ hblocks, List.map_map]
    rfl

private theorem definesProp_standard : DefinesProp TagSet.standard := by
  have hlast : TagSet.standard =
      (TagSet.empty.insertAll TagSet.standardTags).insert TagSet.propTag := by
    rw [TagSet.standard, TagSet.insertAll, List.foldl_append]
    rfl
  refine ⟨TagSet.propTag, ?_, rfl, rfl⟩
  rw [hlast, TagSet.get?_insert]
  exact if_pos rfl

private def oneSpace : Indent := ⟨[' '], List.forall_mem_singleton.mpr (by decide), by simp⟩

-- A draft whose texts look like comment markup.
private def markupDraft : Draft where
  lineEnd := .returnNewline
  summary :=
    [⟨oneSpace, ⟨[], by simp⟩, .newline⟩,
     ⟨oneSpace, ⟨['\x60', '\x60', '\x60', ' ', '\r'], by simp⟩, .newline⟩,
     ⟨oneSpace, ⟨['*', ' ', '@', 'b', '\\'], by simp⟩, .returnNewline⟩]
  props :=
    [⟨oneSpace,
      { name := ['@', 'a', '-'], description := ['-', ' ', '\x7b', '@', 'l']
        name_ne_nil := by simp
        name_solid := by simp; decide
        description_oneLine := by simp
        description_trimmed := by decide },
      .newline⟩,
     ⟨⟨[], by simp, by simp⟩,
      { name := ['-'], description := []
        name_ne_nil := by simp
        name_solid := by simp; decide
        description_oneLine := by simp
        description_trimmed := rfl },
      .returnNewline⟩]
  closing := oneSpace

/-- A draft whose texts are full of markup is written and read back without a diagnostic. -/
theorem read_write_markup :
    DefinesProp TagSet.standard ∧
      (read TagSet.standard (String.ofList markupDraft.write) 1).diagnostics = [] ∧
      (read TagSet.standard (String.ofList markupDraft.write) 1).doc.modifiers = [] ∧
      (read TagSet.standard (String.ofList markupDraft.write) 1).doc.summary =
        "\x60\x60\x60 * @b\\" ∧
      (read TagSet.standard (String.ofList markupDraft.write) 1).doc.blocks.map
        (fun block ↦ (block.tag, block.named)) =
        [("@prop", some ⟨"@a-", "- \x7b@l"⟩), ("@prop", some ⟨"-", ""⟩)] := by
  exact ⟨definesProp_standard, read_write definesProp_standard markupDraft 1⟩

end PropDoc.Comment
