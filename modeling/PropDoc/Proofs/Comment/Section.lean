import PropDoc.Proofs.Comment.Place
import PropDoc.Proofs.List

/-!
# Sections of a comment

The text of a comment is gathered in sections: the summary, and one for each token that opens a
block. What stands before the first of these tokens belongs to the summary, and what follows one of
them belongs to its block, up to the next. Main statements: every block is opened by one token
outside fences, and its lines are the text from there to the next such token; what a token says is
found in the section that is open there, between the texts of the tokens around it.
-/

namespace PropDoc.Comment

/-! ### Text of tokens -/

/-- What the tokens of a line mean. -/
def Token.meanings (tags : TagSet) (line : List Char) : List Meaning :=
  (ofLine line).map (meaning tags)

namespace Meaning

/-- The text that a meaning adds to its line. -/
def content : Meaning → List Char
  | .text content => content
  | .flawed _ content => content
  | .modifier _ => []
  | .opens _ _ => []

/-- Whether a block opens. -/
def isOpening : Meaning → Bool
  | .opens _ _ => true
  | _ => false

/-- The text before the first block opens. -/
def textTo (meanings : List Meaning) : List Char :=
  (meanings.takeWhile fun meaning ↦ !meaning.isOpening).flatMap content

/-- The text after the last block opens. -/
def textSince (meanings : List Meaning) : List Char :=
  (meanings.rtakeWhile fun meaning ↦ !meaning.isOpening).flatMap content

/-- The lines of a section from a line with some text on: what the rest of the line means, and the
lines of text that follow it. If a block opens on the rest of the line, the section ends there, and
the line counts only if it is not blank. -/
def sectionFrom (line : List Char) (rest : List Meaning) (following : List (List Char)) :
    List (List Char) :=
  if rest.any isOpening then if Text.allBlank line then [] else [line] else line :: following

end Meaning

/-- The lines of text that consecutive lines add to a section that is open before them. -/
def sectionLines (tags : TagSet) (inFence : Bool) : List (List Char) → List (List Char)
  | [] => []
  | line :: lines =>
    if Event.isFence line || inFence then
      line :: sectionLines tags (inFence ^^ Event.isFence line) lines
    else
      Meaning.sectionFrom (Meaning.textTo (Token.meanings tags line)) (Token.meanings tags line)
        (sectionLines tags false lines)

/-- What the tokens of consecutive lines mean, outside of fences. -/
def outerMeanings (tags : TagSet) (inFence : Bool) : List (List Char) → List Meaning
  | [] => []
  | line :: lines =>
    (if Event.isFence line || inFence then [] else Token.meanings tags line) ++
      outerMeanings tags (inFence ^^ Event.isFence line) lines

/-- The lines of the summary and of each block. -/
def Doc.sections (doc : Doc) : List (List (List Char)) :=
  doc.summaryLines :: doc.blocks.map Block.lines

/-! ### Text of events -/

namespace Meaning

/-- The events of a token, given the text of its line so far. -/
def events (number : Nat) (text : List Char) : Meaning → List Event
  | .text _ => []
  | .flawed problem _ => [.problem ⟨problem, number⟩]
  | .modifier name => [.modifier name]
  | .opens tag binding =>
    (if Text.allBlank text then [] else [.text text]) ++ [.opens tag binding number]

/-- The text of a line after a token, given the text before it. -/
def textAfter (text : List Char) : Meaning → List Char
  | .text content => text ++ content
  | .flawed _ content => text ++ content
  | .modifier _ => text
  | .opens _ _ => []

/-- The events of a line are those of its first token, then those of the others with the text that
it leaves. -/
theorem ofMeanings_cons (number : Nat) (text : List Char) (meaning : Meaning)
    (rest : List Meaning) :
    Event.ofMeanings number text (meaning :: rest) =
      meaning.events number text ++ Event.ofMeanings number (meaning.textAfter text) rest := by
  cases meaning with
  | text | flawed | modifier => rfl
  | opens tag binding =>
    rw [events, List.append_assoc]
    rfl

private theorem textTo_cons {meaning : Meaning} (h : meaning.isOpening = false)
    (rest : List Meaning) :
    textTo (meaning :: rest) = meaning.content ++ textTo rest := by
  simp [textTo, h]

private theorem sectionFrom_cons {meaning : Meaning} (h : meaning.isOpening = false)
    (line : List Char) (rest : List Meaning) (following : List (List Char)) :
    sectionFrom line (meaning :: rest) following = sectionFrom line rest following := by
  simp [sectionFrom, h]

private theorem textAfter_eq (text : List Char) (meaning : Meaning) :
    meaning.textAfter text = if meaning.isOpening then [] else text ++ meaning.content := by
  cases meaning with
  | text | flawed | opens => rfl
  | modifier => exact (List.append_nil text).symm

/-- The text of a line so far is what its tokens say since the last that opens a block. -/
theorem foldl_textAfter (meanings : List Meaning) :
    meanings.foldl textAfter [] = textSince meanings := by
  induction meanings using List.reverseRecOn with
  | nil => rfl
  | append_singleton meanings meaning ih =>
    rw [List.foldl_append, ih, List.foldl_cons, List.foldl_nil, textAfter_eq, textSince,
      textSince, List.rtakeWhile_concat]
    cases meaning.isOpening <;> simp

private theorem marks_events (number : Nat) (text : List Char) (meaning : Meaning) :
    Event.marks (meaning.events number text) = (meaning.mark? number).toList := by
  cases meaning with
  | text | flawed | modifier => rfl
  | opens =>
    rw [events]
    split <;> rfl

/-- Some tokens of a line give events, and leave text for those after them. -/
theorem exists_ofMeanings_append (number : Nat) (text : List Char) (first second : List Meaning) :
    ∃ past, Event.ofMeanings number text (first ++ second) =
        past ++ Event.ofMeanings number (first.foldl textAfter text) second ∧
      Event.marks past = first.filterMap (mark? number) := by
  induction first generalizing text with
  | nil => exact ⟨[], rfl, rfl⟩
  | cons meaning first ih =>
    obtain ⟨past, hpast, hmarks⟩ := ih (meaning.textAfter text)
    refine ⟨meaning.events number text ++ past, ?_, ?_⟩
    · rw [List.cons_append, ofMeanings_cons, hpast, List.append_assoc, List.foldl_cons]
    · rw [Event.marks_append, hmarks, marks_events, List.filterMap_cons]
      cases meaning.mark? number <;> rfl

end Meaning

namespace Event

variable (tags : TagSet)

/-- The rest of a line adds to the section that is open what it says before a block opens. -/
theorem leadingText_ofMeanings_append (number : Nat) (text : List Char) (meanings : List Meaning)
    (events : List Event) :
    leadingText (ofMeanings number text meanings ++ events) =
      Meaning.sectionFrom (text ++ Meaning.textTo meanings) meanings (leadingText events) := by
  fun_induction ofMeanings number text meanings with
  | case1 text => simp [leadingText, Meaning.sectionFrom, Meaning.textTo]
  | case2 text content rest ih =>
    rw [ih, Meaning.textTo_cons rfl, Meaning.sectionFrom_cons rfl, List.append_assoc]
    rfl
  | case3 text flaw content rest ih =>
    rw [Meaning.textTo_cons rfl, Meaning.sectionFrom_cons rfl, ← List.append_assoc]
    exact ih
  | case4 text name rest ih =>
    rw [Meaning.textTo_cons rfl, Meaning.sectionFrom_cons rfl]
    exact ih
  | case5 text tag binding rest ih =>
    cases hblank : Text.allBlank text <;>
      simp [leadingText, Meaning.sectionFrom, Meaning.textTo, Meaning.isOpening, hblank]

private theorem leadingText_ofLines (inFence : Bool) (number : Nat) (lines : List (List Char)) :
    leadingText (ofLines tags inFence number lines) = sectionLines tags inFence lines := by
  fun_induction ofLines tags inFence number lines with
  | case1 => rfl
  | case2 => rfl
  | case3 inFence number line lines hfence ih => simp [sectionLines, leadingText, hfence, ih]
  | case4 number line lines hfence ih => simp [sectionLines, leadingText, hfence, ih]
  | case5 inFence number line lines hfence hout ih =>
    rw [ofLine, leadingText_ofMeanings_append, ih, List.nil_append]
    simp [sectionLines, hfence, hout, Token.meanings]

/-- The lines of text that some events add to the summary and to the blocks. -/
def sections (events : List Event) : List (List (List Char)) :=
  leadingText events :: (Block.ofEvents events).map Block.lines

private theorem doc_sections_ofEvents (events : List Event) :
    (Reading.ofEvents events).doc.sections = sections events := by
  have hsettle : Block.lines ∘ Block.settle = Block.lines :=
    funext fun block ↦ by rw [Function.comp_apply, Block.settle_eq]
  rw [Doc.sections, Reading.ofEvents, sections, List.map_map, hsettle]

/-- Text is added to the section that the last block opened so far. -/
theorem exists_sections_append (past future : List Event) :
    ∃ earlier, (sections (past ++ future))[(past.filterMap opening?).length]? =
      some (earlier ++ leadingText future) := by
  induction past with
  | nil => exact ⟨[], rfl⟩
  | cons event past ih =>
    obtain ⟨earlier, hsection⟩ := ih
    cases event with
    | opens => exact ⟨earlier, hsection⟩
    | modifier | problem => exact ⟨earlier, hsection⟩
    | text line =>
      rw [List.filterMap_cons_none rfl]
      cases hcount : (past.filterMap opening?).length with
      | zero =>
        rw [hcount] at hsection
        exact ⟨line :: earlier, congrArg (Option.map (line :: ·)) hsection⟩
      | succ count =>
        rw [hcount] at hsection
        exact ⟨earlier, hsection⟩

/-- As many blocks are opened as there are tokens that open one. -/
theorem length_openings {events : List Event} {number : Nat} {meanings : List Meaning}
    (h : marks events = meanings.filterMap (Meaning.mark? number)) :
    (events.filterMap opening?).length = meanings.countP Meaning.isOpening := by
  rw [← filterMap_marks (fun _ ↦ rfl), h, List.filterMap_filterMap,
    List.length_filterMap_eq_countP]
  congr
  funext meaning
  cases meaning <;> rfl

private theorem length_openings_ofInner (inFence : Bool) (number : Nat) (lines : List (List Char)) :
    ((ofInner tags inFence number lines).filterMap opening?).length =
      (outerMeanings tags inFence lines).countP Meaning.isOpening := by
  induction lines generalizing inFence number with
  | nil => rfl
  | cons line lines ih =>
    rw [ofInner, outerMeanings, List.filterMap_append, List.length_append, List.countP_append, ih]
    congr 1
    split
    · rfl
    · exact length_openings (marks_ofMeanings ..)

end Event

/-! ### Blocks and the tokens that open them -/

namespace Block

/-- The block that a token opens on a line of the given number. -/
def opened (tag : String) (binding : Binding) (line : Nat) (rest : List Meaning)
    (following : List (List Char)) : Block where
  tag := tag
  binding := binding
  line := line
  lines := Meaning.sectionFrom (Meaning.textTo rest) rest following

private theorem mem_ofEvents_ofMeanings_append_iff (number : Nat) (text : List Char)
    (meanings : List Meaning) (events : List Event) (block : Block) :
    block ∈ ofEvents (Event.ofMeanings number text meanings ++ events) ↔
      (∃ tag binding rest, .opens tag binding :: rest <:+ meanings ∧
        block = opened tag binding number rest (Event.leadingText events)) ∨
      block ∈ ofEvents events := by
  fun_induction Event.ofMeanings number text meanings with
  | case1 text => simp [ofEvents]
  | case2 text content rest ih => simp [ih, List.suffix_cons_iff]
  | case3 text flaw content rest ih => simp [ofEvents, ih, List.suffix_cons_iff]
  | case4 text name rest ih => simp [ofEvents, ih, List.suffix_cons_iff]
  | case5 text tag binding rest ih =>
    have hbefore (events : List Event) :
        ofEvents ((if Text.allBlank text then [] else [.text text]) ++ events) =
          ofEvents events := by
      split <;> rfl
    have hlines := Event.leadingText_ofMeanings_append number [] rest events
    rw [List.nil_append] at hlines
    rw [List.append_assoc, hbefore, List.cons_append, ofEvents, List.mem_cons, ih, hlines]
    simp [List.suffix_cons_iff, or_and_right, exists_or, or_assoc, opened]

private theorem mem_ofEvents_ofLines_iff (tags : TagSet) (inFence : Bool) (number : Nat)
    (lines : List (List Char)) (block : Block) :
    block ∈ ofEvents (Event.ofLines tags inFence number lines) ↔
      ∃ before line after, lines = before ++ line :: after ∧ Event.isFence line = false ∧
        Event.fenceAfter inFence before = false ∧
        ∃ tag binding rest, .opens tag binding :: rest <:+ Token.meanings tags line ∧
          block = opened tag binding (number + before.length) rest
            (sectionLines tags false after) := by
  fun_induction Event.ofLines tags inFence number lines with
  | case1 => simp [ofEvents]
  | case2 => simp [ofEvents]
  | case3 inFence number line lines hfence ih =>
    rw [ofEvents, ih, exists_split_cons_iff]
    simp [hfence, Event.fenceAfter, Nat.add_assoc, Nat.add_comm 1]
  | case4 number line lines hfence ih =>
    rw [ofEvents, ih, exists_split_cons_iff]
    simp [hfence, Event.fenceAfter, Nat.add_assoc, Nat.add_comm 1]
  | case5 inFence number line lines hfence hout ih =>
    rw [Event.ofLine, mem_ofEvents_ofMeanings_append_iff, ih, exists_split_cons_iff,
      Event.leadingText_ofLines]
    simp [hfence, hout, Event.fenceAfter, Nat.add_assoc, Nat.add_comm 1, Token.meanings]

end Block

namespace Place

variable {text : List Char}

/-- A token of the line of a place starts there, with some tokens before and after it. -/
structure Splits (place : Place text) (tokens : List Token) (token : Token)
    (tokens' : List Token) : Prop where
  line : Token.ofLine (place.before ++ place.after) = tokens ++ token :: tokens'
  before : Token.sources tokens = place.before

/-- The block that a token of a place opens, with the text up to the next one that opens a block:
that of the tokens after it on its line, and of the lines below. -/
def opened (place : Place text) (tags : TagSet) (firstLine : Nat) (tag : String) (binding : Binding)
    (tokens' : List Token) : Block :=
  .opened tag binding (place.number firstLine) (tokens'.map (Token.meaning tags))
    (sectionLines tags false place.linesAfter)

private theorem exists_of_ofLine {linesBefore linesAfter : List (List Char)} {line : List Char}
    (hlines : innerLines text = linesBefore ++ line :: linesAfter)
    (hnoFence : Event.isFence line = false)
    (hfences : Event.fenceAfter false linesBefore = false) {tokens tokens' : List Token}
    {token : Token} (hline : Token.ofLine line = tokens ++ token :: tokens') :
    ∃ place : Place text, place.linesBefore = linesBefore ∧ place.linesAfter = linesAfter ∧
      place.Splits tokens token tokens' := by
  have hsources : Token.sources tokens ++ Token.sources (token :: tokens') = line := by
    rw [Token.sources, Token.sources, ← List.flatMap_append, ← hline]
    exact Token.sources_scan true line
  subst hsources
  exact ⟨⟨linesBefore, _, _, linesAfter, hlines, hnoFence,
    by simpa using (Event.fenceAfter_eq_false_iff ..).mp hfences⟩, rfl, rfl, hline, rfl⟩

end Place

section

variable (tags : TagSet) {text : String} (hframed : Framed text.toList) (firstLine : Nat)

include hframed

/-- The summary is the text before the first token that opens a block. -/
theorem summaryLines_read :
    (read tags text firstLine).doc.summaryLines =
      sectionLines tags false (innerLines text.toList) := by
  rw [read_eq_ofEvents, ofComment_of_framed hframed, Reading.ofEvents, Event.leadingText_ofLines]

/-- The blocks are those that the tokens outside fences open. The lines of a block are the text from
the token that opens it up to the next that opens one. -/
theorem mem_blocks_read_iff (block : Block) :
    block ∈ (read tags text firstLine).doc.blocks ↔
      ∃ (place : Place text.toList) (tokens : List Token) (token : Token) (tokens' : List Token),
        place.Splits tokens token tokens' ∧
        ∃ tag binding, token.meaning tags = .opens tag binding ∧
          block = (place.opened tags firstLine tag binding tokens').settle := by
  rw [read_eq_ofEvents, ofComment_of_framed hframed, Reading.ofEvents, List.mem_map]
  constructor
  · rintro ⟨bare, hbare, rfl⟩
    obtain ⟨linesBefore, line, linesAfter, hlines, hnoFence, hfences, tag, binding, rest, hrest,
      rfl⟩ := (Block.mem_ofEvents_ofLines_iff ..).mp hbare
    obtain ⟨first, hfirst⟩ := hrest
    obtain ⟨tokens, others, hline, rfl, hothers⟩ := List.map_eq_append_iff.mp hfirst.symm
    obtain ⟨token, tokens', rfl, hmeaning, rfl⟩ := List.map_eq_cons_iff.mp hothers
    obtain ⟨place, rfl, rfl, hsplits⟩ :=
      Place.exists_of_ofLine hlines hnoFence hfences hline
    exact ⟨place, tokens, token, tokens', hsplits, tag, binding, hmeaning, rfl⟩
  · rintro ⟨place, tokens, token, tokens', hsplits, tag, binding, hmeaning, rfl⟩
    refine ⟨_, (Block.mem_ofEvents_ofLines_iff ..).mpr ⟨place.linesBefore, _, place.linesAfter,
      place.lines, place.noFence, ?_, tag, binding, tokens'.map (Token.meaning tags), ?_, rfl⟩, rfl⟩
    · exact (Event.fenceAfter_eq_false_iff ..).mpr (by simpa using place.outsideFences)
    · rw [Token.meanings, hsplits.line, List.map_append, List.map_cons, hmeaning]
      exact List.suffix_append _ _

/-- What the tokens of a place and after it say is added to the section that is open there. -/
theorem exists_sections_read (place : Place text.toList) {tokens tokens' : List Token}
    {token : Token} (hsplits : place.Splits tokens token tokens') :
    let before := tokens.map (Token.meaning tags)
    let rest := (token :: tokens').map (Token.meaning tags)
    ∃ earlier, (read tags text firstLine).doc.sections[
        (outerMeanings tags false place.linesBefore ++ before).countP Meaning.isOpening]? =
      some (earlier ++ Meaning.sectionFrom (Meaning.textSince before ++ Meaning.textTo rest) rest
        (sectionLines tags false place.linesAfter)) := by
  intro before rest
  obtain ⟨past, hpast, hmarks⟩ :=
    Meaning.exists_ofMeanings_append (place.number firstLine) [] before rest
  rw [Meaning.foldl_textAfter] at hpast
  have hevents := place.ofComment_eq hframed tags firstLine
  rw [Event.ofLine, hsplits.line, List.map_append, hpast, List.append_assoc, ← List.append_assoc]
    at hevents
  obtain ⟨earlier, hsection⟩ := Event.exists_sections_append
    (Event.ofInner tags false firstLine place.linesBefore ++ past)
    (Event.ofMeanings (place.number firstLine) (Meaning.textSince before) rest ++
      Event.ofLines tags false (place.number firstLine + 1) place.linesAfter)
  rw [← hevents, List.filterMap_append, List.length_append, Event.length_openings_ofInner,
    Event.length_openings hmarks, ← List.countP_append, Event.leadingText_ofMeanings_append,
    Event.leadingText_ofLines] at hsection
  refine ⟨earlier, ?_⟩
  rw [read_eq_ofEvents, Event.doc_sections_ofEvents]
  exact hsection

end

/-- A comment is well formed if every token that opens a block with a name is followed by one: the
text up to the next token that opens a block gives it. -/
theorem wellFormed_iff (tags : TagSet) (text : String) (firstLine : Nat) :
    WellFormed tags text firstLine ↔
      Framed text.toList ∧ Even ((innerLines text.toList).countP Event.isFence) ∧
      (∀ line, OutsideFences (innerLines text.toList) line → WellFormedLine tags [] line) ∧
      ∀ (place : Place text.toList) (tokens : List Token) (token : Token) (tokens' : List Token),
        place.Splits tokens token tokens' →
        ∀ tag binding, token.meaning tags = .opens tag binding → binding.isNamed = true →
          GivesName (place.opened tags firstLine tag binding tokens').content := by
  constructor
  · rintro ⟨hframed, hfences, hlines, hblocks⟩
    refine ⟨hframed, hfences, hlines, ?_⟩
    intro place tokens token tokens' hsplits tag binding hmeaning hnamed
    have hname := hblocks _ ((mem_blocks_read_iff tags hframed firstLine _).mpr
      ⟨place, tokens, token, tokens', hsplits, tag, binding, hmeaning, rfl⟩)
    rw [Block.settle_binding, Block.settle_content] at hname
    exact hname hnamed
  · rintro ⟨hframed, hfences, hlines, hnames⟩
    refine ⟨hframed, hfences, hlines, ?_⟩
    intro block hblock hnamed
    obtain ⟨place, tokens, token, tokens', hsplits, tag, binding, hmeaning, rfl⟩ :=
      (mem_blocks_read_iff tags hframed firstLine block).mp hblock
    rw [Block.settle_binding] at hnamed
    rw [Block.settle_content]
    exact hnames place tokens token tokens' hsplits tag binding hmeaning hnamed

/-! ### Text at a place -/

/-- What a bar separates off is not shown. -/
theorem inlineText_eq_trim {target : List Char} (h : '|' ∉ target) (label : List Char) :
    inlineText target = Text.trim target ∧
      inlineText (target ++ '|' :: label) = Text.trim label := by
  constructor
  · rw [inlineText, (Text.cutAt?_eq_none_iff ..).mpr h]
  · rw [inlineText, (Text.cutAt?_eq_some_iff ..).mpr ⟨rfl, h⟩]

namespace Place

variable {text : List Char}

/-- What is written at a place shows as some text. It is one token, and the section that is open
there, the summary or the last block that a token before it opens, goes on with a line that has this
text between the texts of the tokens around it, each up to where a block opens. -/
def Shows (place : Place text) (tags : TagSet) (reading : Reading) (written shown : List Char) :
    Prop :=
  ∃ tokens token tokens', place.Splits tokens token tokens' ∧ token.source = written ∧
    let before := tokens.map (Token.meaning tags)
    let after := tokens'.map (Token.meaning tags)
    let opened := outerMeanings tags false place.linesBefore ++ before
    ∃ earlier, reading.doc.sections[opened.countP Meaning.isOpening]? =
      some (earlier ++ Meaning.sectionFrom
        (Meaning.textSince before ++ shown ++ Meaning.textTo after) after
        (sectionLines tags false place.linesAfter))

/-- What is read as text shows as that text. -/
theorem ReadAs.shows {text : String} (hframed : Framed text.toList) {place : Place text.toList}
    {tags : TagSet} {firstLine : Nat} {written shown : List Char}
    (h : place.ReadAs tags firstLine (read tags text firstLine) written (.text shown)) :
    place.Shows tags (read tags text firstLine) written shown := by
  obtain ⟨tokens, token, tokens', hline, hbefore, hsource, hmeaning, -⟩ := h
  have hsplits : place.Splits tokens token tokens' := ⟨hline, hbefore⟩
  obtain ⟨earlier, hsection⟩ := exists_sections_read tags hframed firstLine place hsplits
  rw [List.map_cons, hmeaning, Meaning.sectionFrom_cons rfl, Meaning.textTo_cons rfl,
    Meaning.content, ← List.append_assoc] at hsection
  exact ⟨tokens, token, tokens', hsplits, hsource, earlier, hsection⟩

end Place

end PropDoc.Comment
