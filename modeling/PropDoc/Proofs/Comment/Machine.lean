import PropDoc.Proofs.Comment.Place
import PropDoc.Proofs.Text.Slice

/-!
# Reading by index

A machine that reads a comment as a loop over indices does. It keeps the index of the next character
and the index of the block that text goes to, and takes characters, ranges of characters, ranges of
bytes and blocks by their index. An access fails where there is nothing, and then so does the step.
Here each function of the machine is shown to find what it takes, and to give what structure gives.
-/

namespace PropDoc.Comment

/-- The text between the delimiters of a comment, if it has both: the bytes from the third up to
the last two. -/
def bodySlice? (text : List Char) : Option (Option (List Char)) :=
  let trimmed := Text.trim text
  if 5 ≤ String.utf8Len trimmed ∧ ['/', '*', '*'] <+: trimmed ∧ ['*', '/'] <:+ trimmed then
    (Text.byteSlice? trimmed 3 (String.utf8Len trimmed - 2)).map some
  else some none

/-- What stands between the delimiters starts and ends where characters do. -/
theorem bodySlice?_eq (text : List Char) : bodySlice? text = some (body? text) := by
  have hframed : (5 ≤ String.utf8Len (Text.trim text) ∧ ['/', '*', '*'] <+: Text.trim text ∧
      ['*', '/'] <:+ Text.trim text) ↔ Framed text := by
    rw [Framed, String.utf8ByteSize_ofList]
  unfold bodySlice?
  dsimp only
  split
  · next h =>
    obtain ⟨body, htrim⟩ := (framed_iff text).mp (hframed.mp h)
    have hstop : String.utf8Len (['/', '*', '*'] ++ body ++ ['*', '/']) - 2 =
        String.utf8Len ['/', '*', '*'] + String.utf8Len body := by
      rw [String.utf8Len_append, String.utf8Len_append]
      rfl
    rw [(body?_eq_some_iff text body).mpr htrim, htrim, hstop, List.append_assoc]
    exact congrArg (Option.map some) (Text.byteSlice?_append ..)
  · next h =>
    cases hbody : body? text with
    | none => rfl
    | some body =>
      exact absurd (hframed.mpr ((framed_iff text).mpr ⟨body, (body?_eq_some_iff ..).mp hbody⟩)) h

/-! ### Tokens at an index -/

namespace Token

/-- The token that an opening brace at an index starts, and the index where it ends. -/
def inlineAt? (chars : List Char) (start : Nat) : Option (Token × Nat) :=
  if chars[start + 1]? = some '@' then do
    let rest ← Text.slice? chars start chars.length
    match rest.idxOf? '\x7d' with
    | none => some (openInline (rest.drop 2), chars.length)
    | some offset =>
      let close := start + offset
      let inside ← Text.slice? chars (start + 2) close
      let nameEnd := start + 2 + (tagName inside).length
      let name ← Text.slice? chars (start + 1) nameEnd
      let content ← Text.slice? chars nameEnd close
      some (inline name content, close + 1)
  else some (openBrace, start + 1)

/-- Whether a word can start at an index: nothing or a blank comes right before it. -/
def wordStartAt? (chars : List Char) (start : Nat) : Option Bool :=
  if start = 0 then some true else chars[start - 1]?.map Text.isBlank

/-- The token that an at sign at an index starts, and the index where it ends. -/
def signAt? (chars : List Char) (start : Nat) : Option (Token × Nat) := do
  let wordStart ← wordStartAt? chars start
  if wordStart then
    let rest ← Text.slice? chars (start + 1) chars.length
    let stop := start + 1 + (tagName rest).length
    if (tagName rest).isEmpty then some (bareAtSign, start + 1)
    else (Text.slice? chars start stop).map fun name ↦ (tag name, stop)
  else some (char '@', start + 1)

/-- The token that starts at an index outside code spans, and the index where it ends. -/
def at? (chars : List Char) (start : Nat) : Option (Token × Nat) := do
  let c ← chars[start]?
  if c = '\\' ∧ start + 1 < chars.length then
    chars[start + 1]?.map fun next ↦ (escaped next, start + 2)
  else if c = '\x7b' then inlineAt? chars start
  else if c = '\x7d' then some (closeBrace, start + 1)
  else if c = '@' then signAt? chars start
  else some (char c, start + 1)

/-- A token is the first one that is scanned. -/
def IsFirst (wordStart : Bool) (cs : List Char) (token : Token) : Prop :=
  ∃ tokens, scan wordStart cs = token :: tokens

private theorem source_ne_nil_of_mem_scan {wordStart : Bool} {cs : List Char} {token : Token}
    (h : token ∈ scan wordStart cs) : token.source ≠ [] := by
  cases token with
  | tag name =>
    obtain ⟨rest, rfl⟩ := exists_of_tag_mem_scan h
    simp [source]
  | _ => simp [source]

/-- The first token is what a text starts with, and the next ones are scanned after it. -/
theorem IsFirst.exists_source {wordStart : Bool} {cs : List Char} {token : Token}
    (h : IsFirst wordStart cs token) :
    ∃ rest, cs = token.source ++ rest ∧ token.source ≠ [] ∧
      scan wordStart cs = token :: scan (wordStartAfter wordStart token.source) rest := by
  obtain ⟨tokens, htokens⟩ := h
  have hsources := sources_scan wordStart cs
  have hmem : token ∈ scan wordStart cs := htokens ▸ List.mem_cons_self
  rw [htokens, sources_cons] at hsources
  refine ⟨sources tokens, hsources.symm, source_ne_nil_of_mem_scan hmem, ?_⟩
  rw [← eq_scan_of_scan_eq_cons htokens, htokens]

/-- A token is read from at least one character. -/
theorem IsFirst.length_pos {wordStart : Bool} {cs : List Char} {token : Token}
    (h : IsFirst wordStart cs token) : 0 < token.source.length := by
  obtain ⟨_, -, hne, -⟩ := h.exists_source
  exact List.length_pos_iff.mpr hne

/-- A token ends within the text that it starts. -/
theorem IsFirst.length_le {wordStart : Bool} {cs : List Char} {token : Token}
    (h : IsFirst wordStart cs token) : token.source.length ≤ cs.length := by
  obtain ⟨rest, rfl, -⟩ := h.exists_source
  exact List.length_append ▸ Nat.le_add_right ..

private theorem inlineAt?_of_open {chars before rest : List Char}
    (h : chars = before ++ '\x7b' :: '@' :: rest) (hopen : '\x7d' ∉ rest) :
    inlineAt? chars before.length = some (openInline rest, chars.length) := by
  have hsign : chars[before.length + 1]? = some '@' := by simp [h]
  have hrest : Text.slice? chars before.length chars.length = some ('\x7b' :: '@' :: rest) :=
    (Text.slice?_eq_some_iff ..).mpr ⟨before, [], by simp [h], rfl, by simp [h]⟩
  have hindex : ('\x7b' :: '@' :: rest).idxOf? '\x7d' = none := by simpa using hopen
  simp [inlineAt?, hsign, hrest, hindex]

private theorem inlineAt?_of_closed {chars before name content after : List Char}
    (h : chars = before ++ '\x7b' :: '@' :: (name ++ (content ++ '\x7d' :: after)))
    (hname : tagName (name ++ content) = name) (hclosed : '\x7d' ∉ name ++ content) :
    inlineAt? chars before.length =
      some (inline ('@' :: name) content, before.length + (name.length + content.length + 3)) := by
  have hsign : chars[before.length + 1]? = some '@' := by simp [h]
  have hrest : Text.slice? chars before.length chars.length =
      some ('\x7b' :: '@' :: (name ++ (content ++ '\x7d' :: after))) :=
    (Text.slice?_eq_some_iff ..).mpr ⟨before, [], by simp [h], rfl, by simp [h]⟩
  have hindex : ('\x7b' :: '@' :: (name ++ (content ++ '\x7d' :: after))).idxOf? '\x7d' =
      some (name.length + content.length + 2) := by
    simpa using Text.idxOf?_append_cons ('\x7b' :: '@' :: (name ++ content)) after
      (List.not_mem_cons_of_ne_of_not_mem (by decide) (by simpa using hclosed))
  have hinside : Text.slice? chars (before.length + 2)
      (before.length + (name.length + content.length + 2)) = some (name ++ content) :=
    (Text.slice?_eq_some_iff ..).mpr ⟨before ++ ['\x7b', '@'], '\x7d' :: after, by simp [h],
      by simp, by simp; omega⟩
  have hword : Text.slice? chars (before.length + 1) (before.length + 2 + name.length) =
      some ('@' :: name) :=
    (Text.slice?_eq_some_iff ..).mpr ⟨before ++ ['\x7b'], content ++ '\x7d' :: after, by simp [h],
      by simp, by simp; omega⟩
  have hcontent : Text.slice? chars (before.length + 2 + name.length)
      (before.length + (name.length + content.length + 2)) = some content :=
    (Text.slice?_eq_some_iff ..).mpr ⟨before ++ '\x7b' :: '@' :: name, '\x7d' :: after, by simp [h],
      by simp; omega, by simp; omega⟩
  simp [inlineAt?, hsign, hrest, hindex, hinside, hname, hword, hcontent]
  rfl

/-- What an opening brace starts is the token that is scanned there, and ends where that does. -/
theorem exists_inlineAt? (before rest : List Char) (wordStart : Bool) :
    ∃ token, IsFirst wordStart ('\x7b' :: rest) token ∧
      inlineAt? (before ++ '\x7b' :: rest) before.length =
        some (token, before.length + token.source.length) := by
  by_cases hat : rest.head? = some '@'
  · obtain ⟨rest, rfl⟩ := List.head?_eq_some_iff.mp hat
    cases hcut : Text.cutAt? '\x7d' rest with
    | none =>
      refine ⟨_, ⟨_, scan_openInline wordStart hcut⟩, ?_⟩
      rw [inlineAt?_of_open rfl ((Text.cutAt?_eq_none_iff ..).mp hcut), List.length_append, source]
    | some halves =>
      obtain ⟨inside, after⟩ := halves
      obtain ⟨rfl, hclosed⟩ := (Text.cutAt?_eq_some_iff ..).mp hcut
      refine ⟨_, ⟨_, scan_inline wordStart hclosed after⟩, ?_⟩
      obtain ⟨name, hname⟩ : ∃ name, tagName inside = name := ⟨_, rfl⟩
      obtain ⟨content, rfl⟩ : name <+: inside := hname ▸ tagName_isStart inside
      rw [inlineAt?_of_closed (by rw [List.append_assoc]) hname hclosed, hname, List.drop_left]
      simp [source, Nat.add_assoc]
  · have hsecond : (before ++ '\x7b' :: rest)[before.length + 1]? = rest.head? := by
      rw [List.getElem?_append_right (Nat.le_add_right ..), Nat.add_sub_cancel_left,
        List.getElem?_cons_succ, List.head?_eq_getElem?]
    refine ⟨openBrace, ⟨_, scan_openBrace wordStart hat⟩, ?_⟩
    rw [inlineAt?, hsecond, if_neg hat]
    rfl

private theorem wordStartAt?_eq (before rest : List Char) :
    wordStartAt? (before ++ rest) before.length = some (wordStartAfter true before) := by
  cases before using List.reverseRecOn with
  | nil => rfl
  | append_singleton before c => simp [wordStartAt?, wordStartAfter]

/-- What an at sign starts is the token that is scanned there, and ends where that does. -/
theorem exists_signAt? (before rest : List Char) :
    ∃ token, IsFirst (wordStartAfter true before) ('@' :: rest) token ∧
      signAt? (before ++ '@' :: rest) before.length =
        some (token, before.length + token.source.length) := by
  have hrest : Text.slice? (before ++ '@' :: rest) (before.length + 1)
      (before ++ '@' :: rest).length = some rest :=
    (Text.slice?_eq_some_iff ..).mpr ⟨before ++ ['@'], [], by simp, by simp, by simp; omega⟩
  obtain ⟨after, hname⟩ := tagName_isStart rest
  have hword : Text.slice? (before ++ '@' :: rest) before.length
      (before.length + 1 + (tagName rest).length) = some ('@' :: tagName rest) :=
    (Text.slice?_eq_some_iff ..).mpr ⟨before, after, by simp [hname], rfl, by simp; omega⟩
  rw [signAt?, wordStartAt?_eq, Option.bind_eq_bind, Option.bind_some]
  cases wordStartAfter true before with
  | false => exact ⟨char '@', ⟨scan false rest, by rw [scan, if_neg Bool.false_ne_true]⟩, rfl⟩
  | true =>
    rw [if_pos rfl, hrest, Option.bind_eq_bind, Option.bind_some]
    dsimp only
    by_cases hempty : (tagName rest).isEmpty
    · refine ⟨bareAtSign, ⟨scan false rest, ?_⟩, by rw [if_pos hempty]; rfl⟩
      rw [scan, if_pos rfl, if_pos hempty]
    · refine ⟨tag ('@' :: tagName rest), ⟨scan false (rest.drop (tagName rest).length), ?_⟩, ?_⟩
      · rw [scan, if_pos rfl, if_neg hempty]
      · rw [if_neg hempty, hword, Option.map_some, Nat.add_assoc, Nat.add_comm 1]
        rfl

/-- What starts at a character outside code spans, other than a backtick, is the token that is
scanned there, and ends where that does. -/
theorem exists_at? (before : List Char) {c : Char} (hcode : c ≠ '\x60') (rest : List Char) :
    ∃ token, IsFirst (wordStartAfter true before) (c :: rest) token ∧
      at? (before ++ c :: rest) before.length =
        some (token, before.length + token.source.length) := by
  have hfirst : (before ++ c :: rest)[before.length]? = some c := by simp
  rw [at?, hfirst, Option.bind_eq_bind, Option.bind_some]
  by_cases hescape : c = '\\' ∧ rest ≠ []
  · obtain ⟨rfl, hrest⟩ := hescape
    obtain ⟨next, rest, rfl⟩ := List.exists_cons_of_ne_nil hrest
    exact ⟨escaped next, ⟨scan (Text.isBlank next) rest, by rw [scan]⟩, by simp [source]⟩
  rw [if_neg (by simpa [List.length_pos_iff] using hescape)]
  by_cases hopen : c = '\x7b'
  · rw [if_pos hopen, hopen]
    exact exists_inlineAt? before rest _
  rw [if_neg hopen]
  by_cases hclose : c = '\x7d'
  · rw [if_pos hclose, hclose]
    exact ⟨closeBrace, ⟨scan false rest, by rw [scan]⟩, rfl⟩
  rw [if_neg hclose]
  by_cases hat : c = '@'
  · rw [if_pos hat, hat]
    exact exists_signAt? before rest
  · rw [if_neg hat]
    exact ⟨char c, ⟨_, scan_char hcode hopen hclose hat (by simpa using hescape) _⟩, rfl⟩

end Token

/-! ### What is gathered -/

/-- Where text goes. -/
inductive Section where
  | summary
  | block (index : Nat)

/-- The last block, or the summary without one. -/
def Section.last (blocks : List Block) : Section :=
  if blocks.isEmpty then .summary else .block (blocks.length - 1)

/-- What has been gathered of a comment, and where text goes. -/
structure Gathered where
  summaryLines : List (List Char) := []
  blocks : List Block := []
  modifiers : List String := []
  diagnostics : List Diagnostic := []
  current : Section := .summary

namespace Gathered

/-- Add a line of text, if what it belongs to is there. -/
def pushLine? (gathered : Gathered) (line : List Char) : Option Gathered :=
  match gathered.current with
  | .summary => some { gathered with summaryLines := gathered.summaryLines ++ [line] }
  | .block index => gathered.blocks[index]?.map fun block ↦
      { gathered with
        blocks := gathered.blocks.set index { block with lines := block.lines ++ [line] } }

/-- Open a block, which text goes to from now on. -/
def startBlock (gathered : Gathered) (tag : String) (binding : Binding) (line : Nat) : Gathered :=
  let blocks := gathered.blocks ++ [{ tag, binding, line, lines := [] }]
  { gathered with blocks, current := .block (blocks.length - 1) }

/-- Record a modifier. -/
def record (gathered : Gathered) (name : String) : Gathered :=
  { gathered with modifiers := gathered.modifiers ++ [name] }

/-- Report a problem. -/
def report (gathered : Gathered) (diagnostic : Diagnostic) : Gathered :=
  { gathered with diagnostics := gathered.diagnostics ++ [diagnostic] }

/-- Do what a token means, given the text of its line so far, which may grow or be used up. -/
def act? (gathered : Gathered) (number : Nat) (text : List Char) :
    Meaning → Option (Gathered × List Char)
  | .text content => some (gathered, text ++ content)
  | .flawed problem content => some (gathered.report ⟨problem, number⟩, text ++ content)
  | .modifier name => some (gathered.record name, text)
  | .opens tag binding =>
    (if Text.allBlank text then some gathered else gathered.pushLine? text).map fun gathered ↦
      (gathered.startBlock tag binding number, [])

/-- What has been read once nothing is left: the names of blocks are found last. -/
def reading (gathered : Gathered) : Reading where
  doc :=
    { summaryLines := gathered.summaryLines
      blocks := gathered.blocks.map Block.settle
      modifiers := gathered.modifiers }
  diagnostics := gathered.diagnostics ++ gathered.blocks.filterMap Block.diagnostic?

/-- What is gathered from some events. -/
def ofEvents (events : List Event) : Gathered where
  summaryLines := Event.leadingText events
  blocks := Block.ofEvents events
  modifiers := events.filterMap Event.modifier?
  diagnostics := events.filterMap Event.diagnostic?
  current := .last (Block.ofEvents events)

end Gathered

/-! ### What more events add -/

section

variable {first : List Event}

/-- While no block is open, more text is part of the summary. -/
theorem leadingText_append_of_nil (h : Block.ofEvents first = []) (second : List Event) :
    Event.leadingText (first ++ second) =
      Event.leadingText first ++ Event.leadingText second := by
  induction first with
  | nil => rfl
  | cons event first ih =>
    cases event with
    | opens => cases h
    | text line => exact congrArg (line :: ·) (ih h)
    | modifier | problem => exact ih h

/-- Once a block is open, the summary stays as it is. -/
theorem leadingText_append_of_ne_nil (h : Block.ofEvents first ≠ []) (second : List Event) :
    Event.leadingText (first ++ second) = Event.leadingText first := by
  induction first with
  | nil => exact absurd rfl h
  | cons event first ih =>
    cases event with
    | opens => rfl
    | text line => exact congrArg (line :: ·) (ih h)
    | modifier | problem => exact ih h

/-- While no block is open, more events open the blocks that they open on their own. -/
theorem Block.ofEvents_append_of_nil (h : Block.ofEvents first = []) (second : List Event) :
    Block.ofEvents (first ++ second) = Block.ofEvents second := by
  induction first with
  | nil => rfl
  | cons event first ih =>
    cases event with
    | opens => cases h
    | text | modifier | problem => exact ih h

/-- Once a block is open, text goes to the last one, and new blocks come after it. -/
theorem Block.ofEvents_append_of_concat {earlier : List Block} {last : Block}
    (h : Block.ofEvents first = earlier ++ [last]) (second : List Event) :
    Block.ofEvents (first ++ second) =
      earlier ++ { last with lines := last.lines ++ Event.leadingText second } ::
        Block.ofEvents second := by
  induction first generalizing earlier with
  | nil => simp [Block.ofEvents] at h
  | cons event first ih =>
    cases event with
    | text | modifier | problem => exact ih h
    | opens tag binding line =>
      rw [Block.ofEvents] at h
      rw [List.cons_append, Block.ofEvents]
      cases earlier with
      | nil =>
        obtain ⟨rfl, hnil⟩ := List.cons.inj h
        rw [leadingText_append_of_nil hnil, ofEvents_append_of_nil hnil]
        rfl
      | cons block earlier =>
        obtain ⟨rfl, hrest⟩ := List.cons.inj h
        rw [ih hrest, leadingText_append_of_ne_nil (by simp [hrest])]
        rfl

/-- Without text before the first block, more events change nothing but to add their blocks. -/
theorem append_of_leadingText_eq_nil (first second : List Event)
    (h : Event.leadingText second = []) :
    Event.leadingText (first ++ second) = Event.leadingText first ∧
      Block.ofEvents (first ++ second) = Block.ofEvents first ++ Block.ofEvents second := by
  rcases List.eq_nil_or_concat' (Block.ofEvents first) with hnil | ⟨earlier, last, hlast⟩
  · rw [leadingText_append_of_nil hnil, Block.ofEvents_append_of_nil hnil, h, hnil]
    exact ⟨List.append_nil _, rfl⟩
  · rw [leadingText_append_of_ne_nil (by simp [hlast]), Block.ofEvents_append_of_concat hlast, h,
      hlast, List.append_nil, List.append_assoc]
    exact ⟨rfl, rfl⟩

end

@[simp] theorem Section.last_nil : last [] = .summary := rfl

@[simp] theorem Section.last_concat (blocks : List Block) (block : Block) :
    last (blocks ++ [block]) = .block blocks.length := by
  simp [last]

namespace Gathered

variable (past : List Event)

/-- Text always finds what it belongs to. -/
theorem pushLine?_ofEvents (line : List Char) :
    (ofEvents past).pushLine? line = some (ofEvents (past ++ [.text line])) := by
  rcases List.eq_nil_or_concat' (Block.ofEvents past) with hnil | ⟨earlier, last, hlast⟩
  · have hsummary := leadingText_append_of_nil hnil [.text line]
    have hblocks := Block.ofEvents_append_of_nil hnil [.text line]
    simp [pushLine?, ofEvents, hnil, hsummary, hblocks, Event.leadingText, Block.ofEvents,
      Event.modifier?]
  · have hne : Block.ofEvents past ≠ [] := by simp [hlast]
    have hsummary := leadingText_append_of_ne_nil hne [.text line]
    have hblocks := Block.ofEvents_append_of_concat hlast [.text line]
    simp [pushLine?, ofEvents, hlast, hsummary, hblocks, Event.leadingText, Block.ofEvents,
      Event.modifier?]

/-- Starting a block adds the event that opens it. -/
theorem startBlock_ofEvents (tag : String) (binding : Binding) (line : Nat) :
    (ofEvents past).startBlock tag binding line =
      ofEvents (past ++ [.opens tag binding line]) := by
  obtain ⟨hsummary, hblocks⟩ := append_of_leadingText_eq_nil past [.opens tag binding line] rfl
  simp [startBlock, ofEvents, hsummary, hblocks, Event.leadingText, Block.ofEvents,
    Event.modifier?]

/-- Recording a modifier adds its event. -/
theorem record_ofEvents (name : String) :
    (ofEvents past).record name = ofEvents (past ++ [.modifier name]) := by
  obtain ⟨hsummary, hblocks⟩ := append_of_leadingText_eq_nil past [.modifier name] rfl
  simp [record, ofEvents, hsummary, hblocks, Block.ofEvents, Event.modifier?]

/-- Reporting a problem adds its event. -/
theorem report_ofEvents (diagnostic : Diagnostic) :
    (ofEvents past).report diagnostic = ofEvents (past ++ [.problem diagnostic]) := by
  obtain ⟨hsummary, hblocks⟩ := append_of_leadingText_eq_nil past [.problem diagnostic] rfl
  simp [report, ofEvents, hsummary, hblocks, Block.ofEvents, Event.modifier?]

end Gathered

/-! ### The machine -/

/-- A line that is read: the index of the next character, the text so far that has not been added,
and whether a code span is open. -/
structure Cursor where
  chars : List Char
  position : Nat := 0
  text : List Char := []
  inCode : Bool := false

/-- Read what starts at the next character of the line with a given number. -/
def Cursor.step? (tags : TagSet) (number : Nat) (gathered : Gathered) (cursor : Cursor) :
    Option (Gathered × Cursor) := do
  let c ← cursor.chars[cursor.position]?
  if c = '\x60' then
    some (gathered,
      { cursor with
        position := cursor.position + 1, text := cursor.text ++ [c], inCode := !cursor.inCode })
  else if cursor.inCode then
    some (gathered, { cursor with position := cursor.position + 1, text := cursor.text ++ [c] })
  else
    let (token, position) ← Token.at? cursor.chars cursor.position
    let (gathered, text) ← gathered.act? number cursor.text (token.meaning tags)
    some (gathered, { cursor with position, text })

/-- What has been gathered, the number of the current line, the line that is read, if any, and the
lines after it. -/
structure Machine where
  gathered : Gathered := {}
  inFence : Bool := false
  number : Nat
  cursor? : Option Cursor := none
  lines : List (List Char) := []

namespace Machine

/-- A machine before it has read any line of a comment. Without delimiters there are none. -/
def start? (text : List Char) (firstLine : Nat) : Option Machine :=
  (bodySlice? text).map fun
    | none => { gathered := Gathered.report {} ⟨.missingOpening, firstLine⟩, number := firstLine }
    | some body => { number := firstLine, lines := bodyLines body }

/-- Add the text of a line that has been read, and go on to the next one. -/
def endLine? (m : Machine) (cursor : Cursor) : Option Machine :=
  let gathered :=
    if cursor.inCode then m.gathered.report ⟨.openCodeSpan, m.number⟩ else m.gathered
  (gathered.pushLine? cursor.text).map fun gathered ↦
    { m with gathered, number := m.number + 1, cursor? := none }

/-- Take the next line. Fences and what they enclose are added as they are. -/
def nextLine? (m : Machine) (line : List Char) (lines : List (List Char)) : Option Machine :=
  if Event.isFence line then
    (m.gathered.pushLine? line).map fun gathered ↦
      { m with gathered, inFence := !m.inFence, number := m.number + 1, lines }
  else if m.inFence then
    (m.gathered.pushLine? line).map fun gathered ↦
      { m with gathered, number := m.number + 1, lines }
  else some { m with cursor? := some { chars := line }, lines }

/-- Read on in the current line or take the next one. A step fails if an access does. -/
def step? (tags : TagSet) (m : Machine) : Option Machine :=
  match m.cursor?, m.lines with
  | some cursor, _ =>
    if cursor.position < cursor.chars.length then
      (cursor.step? tags m.number m.gathered).map fun (gathered, cursor) ↦
        { m with gathered, cursor? := some cursor }
    else m.endLine? cursor
  | none, line :: lines => m.nextLine? line lines
  | none, [] => none

/-- Nothing is left to read. -/
def AtEnd (m : Machine) : Prop := m.cursor? = none ∧ m.lines = []

/-- What has been read once nothing is left. A fence that is open is reported on the last line. -/
def reading (m : Machine) : Reading :=
  (if m.inFence then m.gathered.report ⟨.openFence, m.number - 1⟩ else m.gathered).reading

end Machine

end PropDoc.Comment
