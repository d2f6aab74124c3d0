import Mathlib.Logic.Relation
import PropDoc.Proofs.Comment.Machine
import PropDoc.Proofs.Comment.Section

/-!
# Runs of the machine

What the machine has gathered, together with the events of what it has left to read, are the events
of the comment. Every step keeps this, and takes nothing that is not there. So the machine comes to
an end on every text, and what it has gathered by then is the reading of the comment.
-/

namespace PropDoc.Comment

/-! ### Steps in terms of events -/

/-- Some events open at most one block, and add no text to it. -/
def OpenAtMostOne (events : List Event) : Prop :=
  (Block.ofEvents events).length ≤ 1 ∧ ∀ block ∈ Block.ofEvents events, block.lines = []

namespace Meaning

private theorem openAtMostOne_events (number : Nat) (text : List Char) (meaning : Meaning) :
    OpenAtMostOne (meaning.events number text) := by
  cases meaning with
  | text | flawed | modifier => simp [OpenAtMostOne, events, Block.ofEvents]
  | opens =>
    rw [events]
    split <;> simp [OpenAtMostOne, Block.ofEvents, Event.leadingText]

end Meaning

private theorem Gathered.act?_ofEvents (past : List Event) (number : Nat) (text : List Char)
    (meaning : Meaning) :
    (ofEvents past).act? number text meaning =
      some (ofEvents (past ++ meaning.events number text), meaning.textAfter text) := by
  cases meaning with
  | text => rw [act?, Meaning.events, List.append_nil, Meaning.textAfter]
  | flawed => rw [act?, report_ofEvents, Meaning.events, Meaning.textAfter]
  | modifier => rw [act?, record_ofEvents, Meaning.events, Meaning.textAfter]
  | opens =>
    rw [act?, Meaning.events, Meaning.textAfter]
    split
    · rw [Option.map_some, startBlock_ofEvents, List.nil_append]
    · rw [pushLine?_ofEvents, Option.map_some, startBlock_ofEvents, List.append_assoc]

/-! ### Code spans character by character -/

/-- The events of the rest of a line inside a code span, given the text of the line so far. -/
def Event.ofCode (tags : TagSet) (number : Nat) (text rest : List Char) : List Event :=
  match Text.cutAt? '\x60' rest with
  | some (content, after) =>
    ofMeanings number (text ++ (content ++ ['\x60']))
      ((Token.scan false after).map (Token.meaning tags))
  | none => [.problem ⟨.openCodeSpan, number⟩, .text (text ++ rest)]

section

variable (tags : TagSet) (number : Nat) (text rest : List Char)

/-- A backtick outside code spans opens one. -/
theorem ofMeanings_scan_backtick (wordStart : Bool) :
    Event.ofMeanings number text
        ((Token.scan wordStart ('\x60' :: rest)).map (Token.meaning tags)) =
      Event.ofCode tags number (text ++ ['\x60']) rest := by
  unfold Event.ofCode
  cases hcut : Text.cutAt? '\x60' rest with
  | none =>
    rw [Token.scan_openCode wordStart hcut, List.append_assoc]
    rfl
  | some halves =>
    obtain ⟨content, after⟩ := halves
    obtain ⟨rfl, hcontent⟩ := (Text.cutAt?_eq_some_iff ..).mp hcut
    rw [scan_code wordStart hcontent]
    dsimp only
    rw [List.append_assoc text]
    rfl

/-- A backtick in a code span closes it. -/
theorem ofCode_backtick :
    Event.ofCode tags number text ('\x60' :: rest) =
      Event.ofMeanings number (text ++ ['\x60'])
        ((Token.scan false rest).map (Token.meaning tags)) := by
  rw [Event.ofCode, Text.cutAt?, if_pos rfl]
  rfl

private theorem ofCode_cons {c : Char} (h : c ≠ '\x60') :
    Event.ofCode tags number text (c :: rest) = Event.ofCode tags number (text ++ [c]) rest := by
  unfold Event.ofCode
  rw [Text.cutAt?, if_neg h]
  cases Text.cutAt? '\x60' rest <;> simp

end

/-! ### Lines -/

namespace Cursor

/-- The events of what is left of a line. -/
def events (tags : TagSet) (number : Nat) (cursor : Cursor) : List Event :=
  let before := cursor.chars.take cursor.position
  let rest := cursor.chars.drop cursor.position
  if cursor.inCode then Event.ofCode tags number cursor.text rest
  else
    Event.ofMeanings number cursor.text
      ((Token.scan (Token.wordStartAfter true before) rest).map (Token.meaning tags))

private theorem events_of_code (tags : TagSet) (number : Nat) {chars before rest : List Char}
    (h : chars = before ++ rest) {position : Nat} (hposition : position = before.length)
    (text : List Char) :
    events tags number ⟨chars, position, text, true⟩ = Event.ofCode tags number text rest := by
  subst h hposition
  rw [events, if_pos rfl, List.drop_left]

private theorem events_of_text (tags : TagSet) (number : Nat) {chars before rest : List Char}
    (h : chars = before ++ rest) {position : Nat} (hposition : position = before.length)
    (text : List Char) :
    events tags number ⟨chars, position, text, false⟩ =
      Event.ofMeanings number text
        ((Token.scan (Token.wordStartAfter true before) rest).map (Token.meaning tags)) := by
  subst h hposition
  rw [events, if_neg Bool.false_ne_true, List.drop_left, List.take_left]

/-- A step reads on in a line: its events are those that were left and are not left any more. -/
structure StepsTo (tags : TagSet) (number : Nat) (past new : List Event)
    (cursor cursor' : Cursor) : Prop where
  step : cursor.step? tags number (.ofEvents past) = some (.ofEvents (past ++ new), cursor')
  events : new ++ cursor'.events tags number = cursor.events tags number
  openAtMostOne : OpenAtMostOne new
  chars : cursor'.chars = cursor.chars
  lt : cursor.position < cursor'.position
  le : cursor'.position ≤ cursor.chars.length

section

variable (tags : TagSet) (number : Nat) (past : List Event) (before rest text : List Char)

private theorem stepsTo_backtick (inCode : Bool) :
    StepsTo tags number past [] ⟨before ++ '\x60' :: rest, before.length, text, inCode⟩
      ⟨before ++ '\x60' :: rest, before.length + 1, text ++ ['\x60'], !inCode⟩ where
  step := by simp [step?]
  events := by
    have hnext : before ++ '\x60' :: rest = before ++ ['\x60'] ++ rest := by simp
    cases inCode with
    | true =>
      rw [events_of_code tags number rfl rfl, ofCode_backtick, Bool.not_true,
        events_of_text tags number hnext (by simp), Token.wordStartAfter_concat]
      rfl
    | false =>
      rw [events_of_text tags number rfl rfl, ofMeanings_scan_backtick, Bool.not_false,
        events_of_code tags number hnext (by simp), List.nil_append]
  openAtMostOne := by simp [OpenAtMostOne, Block.ofEvents]
  chars := rfl
  lt := Nat.lt_succ_self _
  le := by simp

private theorem stepsTo_in_code {c : Char} (hc : c ≠ '\x60') :
    StepsTo tags number past [] ⟨before ++ c :: rest, before.length, text, true⟩
      ⟨before ++ c :: rest, before.length + 1, text ++ [c], true⟩ where
  step := by simp [step?, hc]
  events := by
    have hnext : before ++ c :: rest = before ++ [c] ++ rest := by simp
    rw [events_of_code tags number rfl rfl, ofCode_cons tags number text rest hc,
      events_of_code tags number hnext (by simp), List.nil_append]
  openAtMostOne := by simp [OpenAtMostOne, Block.ofEvents]
  chars := rfl
  lt := Nat.lt_succ_self _
  le := by simp

private theorem exists_stepsTo_text {c : Char} (hc : c ≠ '\x60') :
    ∃ new cursor', StepsTo tags number past new
      ⟨before ++ c :: rest, before.length, text, false⟩ cursor' := by
  obtain ⟨token, hfirst, hat⟩ := Token.exists_at? before hc rest
  obtain ⟨after, hsource, -, hscan⟩ := hfirst.exists_source
  have hnext : before ++ c :: rest = before ++ token.source ++ after := by
    rw [hsource, List.append_assoc]
  refine ⟨(token.meaning tags).events number text,
    ⟨before ++ c :: rest, before.length + token.source.length,
      (token.meaning tags).textAfter text, false⟩, ?_, ?_, ?_, rfl, ?_, ?_⟩
  · simp [step?, hc, hat, Gathered.act?_ofEvents]
  · rw [events_of_text tags number hnext (by simp), events_of_text tags number rfl rfl, hscan,
      List.map_cons, Meaning.ofMeanings_cons, Token.wordStartAfter_append]
  · exact Meaning.openAtMostOne_events ..
  · exact Nat.lt_add_of_pos_right hfirst.length_pos
  · rw [List.length_append]
    exact Nat.add_le_add_left hfirst.length_le before.length

end

/-- Before the end of a line there is always a step, and it ends further on in the line. -/
theorem exists_stepsTo (tags : TagSet) (number : Nat) (past : List Event) {cursor : Cursor}
    (h : cursor.position < cursor.chars.length) :
    ∃ new cursor', StepsTo tags number past new cursor cursor' := by
  obtain ⟨chars, position, text, inCode⟩ := cursor
  obtain ⟨before, rest, hsplit, hposition⟩ :=
    Text.exists_split_of_getElem? (List.getElem?_eq_getElem h)
  generalize chars[position] = c at hsplit
  subst hsplit hposition
  by_cases hc : c = '\x60'
  · subst hc
    exact ⟨_, _, stepsTo_backtick tags number past before rest text inCode⟩
  · cases inCode with
    | true => exact ⟨_, _, stepsTo_in_code tags number past before rest text hc⟩
    | false => exact exists_stepsTo_text tags number past before rest text hc

end Cursor

/-! ### Comments -/

namespace Gathered

/-- Text goes to the last block, and to the summary if there is none. -/
def ToLast (gathered : Gathered) : Prop :=
  (gathered.current = .summary ↔ gathered.blocks = []) ∧
    ∀ index, gathered.current = .block index → index + 1 = gathered.blocks.length

/-- What a step may change: before the first block it adds to the summary, and from then on to the
last block alone. It opens at most one block, which has no text yet. -/
structure Grows (gathered gathered' : Gathered) : Prop where
  summary : gathered.summaryLines <+: gathered'.summaryLines
  summaryDone : gathered.blocks ≠ [] → gathered'.summaryLines = gathered.summaryLines
  noBlock : gathered.blocks = [] →
    gathered'.blocks.length ≤ 1 ∧ ∀ block ∈ gathered'.blocks, block.lines = []
  lastBlock : ∀ earlier last, gathered.blocks = earlier ++ [last] →
    ∃ more opened,
      gathered'.blocks = earlier ++ { last with lines := last.lines ++ more } :: opened ∧
      opened.length ≤ 1 ∧ ∀ block ∈ opened, block.lines = []

private theorem toLast_ofEvents (events : List Event) : (ofEvents events).ToLast := by
  rcases List.eq_nil_or_concat' (Block.ofEvents events) with hnil | ⟨earlier, last, hlast⟩
  · simp [ToLast, ofEvents, hnil]
  · simp [ToLast, ofEvents, hlast]

private theorem grows_ofEvents (past : List Event) {new : List Event} (h : OpenAtMostOne new) :
    (ofEvents past).Grows (ofEvents (past ++ new)) where
  summary := by
    by_cases hnil : Block.ofEvents past = []
    · exact ⟨_, (leadingText_append_of_nil hnil new).symm⟩
    · exact ⟨[], by rw [List.append_nil]; exact (leadingText_append_of_ne_nil hnil new).symm⟩
  summaryDone hne := leadingText_append_of_ne_nil hne new
  noBlock hnil := by
    rw [ofEvents, Block.ofEvents_append_of_nil hnil]
    exact h
  lastBlock earlier last hlast := ⟨_, _, Block.ofEvents_append_of_concat hlast new, h⟩

end Gathered

namespace Machine

variable (tags : TagSet)

/-- The events of what is left of a comment. -/
def events (m : Machine) : List Event :=
  match m.cursor? with
  | some cursor =>
    cursor.events tags m.number ++ Event.ofLines tags m.inFence (m.number + 1) m.lines
  | none => Event.ofLines tags m.inFence m.number m.lines

/-- The number of characters that are left to read, and a little for each line. -/
def work (m : Machine) : Nat :=
  (m.cursor?.map fun cursor ↦ cursor.chars.length - cursor.position + 1).getD 0 +
    (m.lines.flatten.length + 2 * m.lines.length)

/-- A step within a line ends further on in that line. -/
def MovesOn (m m' : Machine) : Prop :=
  ∀ cursor, m.cursor? = some cursor → cursor.position < cursor.chars.length →
    ∃ cursor', m'.cursor? = some cursor' ∧ cursor'.chars = cursor.chars ∧
      cursor.position < cursor'.position ∧ cursor'.position ≤ cursor.chars.length

/-- A step reads on in a comment: its events are those that were left and are not left any more. -/
structure StepsTo (past new : List Event) (m m' : Machine) : Prop where
  step : m.step? tags = some m'
  gathered : m'.gathered = .ofEvents (past ++ new)
  events : new ++ m'.events tags = m.events tags
  openAtMostOne : OpenAtMostOne new
  movesOn : m.MovesOn m'
  work_lt : m'.work < m.work

variable {tags} {past : List Event} {m : Machine}

private theorem movesOn_of_eq_none (h : m.cursor? = none) (m' : Machine) : m.MovesOn m' := by
  intro cursor hcursor
  rw [h] at hcursor
  cases hcursor

private theorem exists_stepsTo_cursor (hm : m.gathered = .ofEvents past) {cursor : Cursor}
    (hcursor : m.cursor? = some cursor) (h : cursor.position < cursor.chars.length) :
    ∃ new m', StepsTo tags past new m m' := by
  obtain ⟨gathered, inFence, number, _, lines⟩ := m
  subst hm hcursor
  obtain ⟨new, cursor', hstep⟩ := cursor.exists_stepsTo tags number past h
  refine ⟨new, ⟨.ofEvents (past ++ new), inFence, number, some cursor', lines⟩, ?_, rfl, ?_,
    hstep.openAtMostOne, ?_, ?_⟩
  · simp [step?, h, hstep.step]
  · rw [events, ← List.append_assoc, hstep.events, events]
  · rintro _ ⟨⟩ -
    exact ⟨cursor', rfl, hstep.chars, hstep.lt, hstep.le⟩
  · have hlt := hstep.lt
    simp only [work, Option.map_some, Option.getD_some, hstep.chars]
    omega

private theorem events_at_end (number : Nat) {cursor : Cursor}
    (h : ¬ cursor.position < cursor.chars.length) :
    cursor.events tags number =
      (if cursor.inCode then [.problem ⟨.openCodeSpan, number⟩] else []) ++
        [.text cursor.text] := by
  rw [Cursor.events, List.drop_of_length_le (Nat.le_of_not_lt h)]
  cases cursor.inCode with
  | true => simp [Event.ofCode, Text.cutAt?]
  | false =>
    rw [Token.scan]
    rfl

private theorem exists_stepsTo_endLine (hm : m.gathered = .ofEvents past) {cursor : Cursor}
    (hcursor : m.cursor? = some cursor) (h : ¬ cursor.position < cursor.chars.length) :
    ∃ new m', StepsTo tags past new m m' := by
  obtain ⟨gathered, inFence, number, _, lines⟩ := m
  subst hm hcursor
  refine ⟨cursor.events tags number,
    ⟨.ofEvents (past ++ cursor.events tags number), inFence, number + 1, none, lines⟩,
    ?_, rfl, rfl, ?_, ?_, ?_⟩
  · rw [events_at_end number h]
    cases hcode : cursor.inCode <;>
      simp [step?, h, endLine?, hcode, Gathered.report_ofEvents, Gathered.pushLine?_ofEvents]
  · rw [events_at_end number h]
    cases cursor.inCode <;> simp [OpenAtMostOne, Block.ofEvents]
  · rintro _ ⟨⟩ hposition
    exact absurd hposition h
  · simp only [work, Option.map_some, Option.map_none, Option.getD_some, Option.getD_none]
    omega

private theorem stepsTo_whole {inFence inFence' : Bool} {number : Nat} {line : List Char}
    {lines : List (List Char)}
    (hstep : step? tags ⟨.ofEvents past, inFence, number, none, line :: lines⟩ =
      some ⟨.ofEvents (past ++ [.text line]), inFence', number + 1, none, lines⟩)
    (hevents : Event.ofLines tags inFence number (line :: lines) =
      .text line :: Event.ofLines tags inFence' (number + 1) lines) :
    StepsTo tags past [.text line] ⟨.ofEvents past, inFence, number, none, line :: lines⟩
      ⟨.ofEvents (past ++ [.text line]), inFence', number + 1, none, lines⟩ where
  step := hstep
  gathered := rfl
  events := hevents.symm
  openAtMostOne := by simp [OpenAtMostOne, Block.ofEvents]
  movesOn := movesOn_of_eq_none rfl _
  work_lt := by
    simp only [work, List.flatten_cons, List.length_append, List.length_cons]
    omega

private theorem exists_stepsTo_nextLine (hm : m.gathered = .ofEvents past)
    (hcursor : m.cursor? = none) {line : List Char} {lines : List (List Char)}
    (hlines : m.lines = line :: lines) : ∃ new m', StepsTo tags past new m m' := by
  obtain ⟨gathered, inFence, number, _, _⟩ := m
  subst hm hcursor hlines
  by_cases hfence : Event.isFence line
  · refine ⟨_, _, stepsTo_whole ?_ (by rw [Event.ofLines, if_pos hfence])⟩
    simp [step?, nextLine?, hfence, Gathered.pushLine?_ofEvents]
  · cases inFence with
    | true =>
      refine ⟨_, _, stepsTo_whole ?_ (by rw [Event.ofLines, if_neg hfence, if_pos rfl])⟩
      simp [step?, nextLine?, hfence, Gathered.pushLine?_ofEvents]
    | false =>
      refine ⟨[], ⟨.ofEvents past, false, number, some { chars := line }, lines⟩,
        ?_, ?_, ?_, ?_, movesOn_of_eq_none rfl _, ?_⟩
      · simp [step?, nextLine?, hfence]
      · rw [List.append_nil]
      · dsimp only [events]
        rw [Event.ofLines, if_neg hfence, if_neg Bool.false_ne_true]
        rfl
      · simp [OpenAtMostOne, Block.ofEvents]
      · simp only [work, Option.map_some, Option.map_none, Option.getD_some, Option.getD_none,
          List.flatten_cons, List.length_append, List.length_cons]
        omega

/-- Before the end there is always a step. -/
theorem exists_stepsTo (hm : m.gathered = .ofEvents past) (hend : ¬ m.AtEnd) :
    ∃ new m', StepsTo tags past new m m' := by
  cases hcursor : m.cursor? with
  | some cursor =>
    by_cases hposition : cursor.position < cursor.chars.length
    · exact exists_stepsTo_cursor hm hcursor hposition
    · exact exists_stepsTo_endLine hm hcursor hposition
  | none =>
    cases hlines : m.lines with
    | nil => exact absurd ⟨hcursor, hlines⟩ hend
    | cons line lines => exact exists_stepsTo_nextLine hm hcursor hlines

variable (tags)

/-- One state follows another in some number of steps. -/
def Reaches : Machine → Machine → Prop :=
  Relation.ReflTransGen fun m m' ↦ m.step? tags = some m'

/-- What has been gathered and what is left to read make up some events. -/
def Reads (events : List Event) (m : Machine) : Prop :=
  ∃ past, m.gathered = .ofEvents past ∧ past ++ m.events tags = events

/-- A step keeps what has been gathered where it belongs, and moves on. -/
structure Advances (m m' : Machine) : Prop where
  grows : m.gathered.Grows m'.gathered
  movesOn : m.MovesOn m'

variable {tags} {events : List Event}

/-- Before the end a step is taken, keeps the events, and leaves less to read. -/
theorem Reads.exists_step? (h : m.Reads tags events) (hend : ¬ m.AtEnd) :
    ∃ m', m.step? tags = some m' ∧ m'.Reads tags events ∧ m.Advances m' ∧ m'.work < m.work := by
  obtain ⟨past, hm, hevents⟩ := h
  obtain ⟨new, m', hstep⟩ := exists_stepsTo hm hend
  refine ⟨m', hstep.step, ⟨past ++ new, hstep.gathered, ?_⟩, ⟨?_, hstep.movesOn⟩, hstep.work_lt⟩
  · rw [List.append_assoc, hstep.events, hevents]
  · rw [hm, hstep.gathered]
    exact Gathered.grows_ofEvents past hstep.openAtMostOne

private theorem step?_eq_none_of_atEnd (h : m.AtEnd) : m.step? tags = none := by
  rw [step?, h.1, h.2]

/-- What holds the events at first holds them all along. -/
theorem Reads.of_reaches (h : m.Reads tags events) {m' : Machine} (hreach : Reaches tags m m') :
    m'.Reads tags events := by
  induction hreach with
  | refl => exact h
  | @tail m₁ m₂ _ hstep ih =>
    have hend : ¬ m₁.AtEnd := by
      intro hend
      rw [step?_eq_none_of_atEnd hend] at hstep
      cases hstep
    obtain ⟨m', hstep', hreads, -⟩ := ih.exists_step? hend
    rw [hstep] at hstep'
    cases hstep'
    exact hreads

/-- The end is reached, since every step leaves less to read. -/
theorem Reads.exists_end {m : Machine} (h : m.Reads tags events) :
    ∃ m', Reaches tags m m' ∧ m'.AtEnd := by
  by_cases hend : m.AtEnd
  · exact ⟨m, .refl, hend⟩
  · obtain ⟨m₁, hstep, hreads, -, hwork⟩ := h.exists_step? hend
    obtain ⟨m', hreach, hend'⟩ := hreads.exists_end
    exact ⟨m', .head hstep hreach, hend'⟩
termination_by m.work

/-- At the end no event is left but for a fence that is open. -/
theorem Reads.reading_eq (h : m.Reads tags events) (hend : m.AtEnd) :
    m.reading = Reading.ofEvents events := by
  obtain ⟨past, hm, rfl⟩ := h
  obtain ⟨hcursor, hlines⟩ := hend
  rw [reading, hm, Machine.events, hcursor, hlines]
  dsimp only
  rw [Event.ofLines]
  split
  · rw [Gathered.report_ofEvents]
    rfl
  · rw [List.append_nil]
    rfl

private theorem exists_start? (tags : TagSet) (text : List Char) (firstLine : Nat) :
    ∃ m, start? text firstLine = some m ∧ m.Reads tags (Event.ofComment tags text firstLine) := by
  rw [start?, bodySlice?_eq, Event.ofComment]
  cases body? text with
  | none => exact ⟨_, rfl, [.problem ⟨.missingOpening, firstLine⟩], rfl, rfl⟩
  | some body => exact ⟨_, rfl, [], rfl, rfl⟩

end Machine

/-- The machine reads every text. From its start on each state has text go to the last block, or to
the summary without one. Before the end there is a step, so that every index and range is there; it
adds to the summary only before the first block and later to the last block alone, and within a line
it moves on. The end is always reached, with the reading of the comment. The token that an opening
brace starts ends after it and within the line. -/
theorem machine_reads (tags : TagSet) (text : String) (firstLine : Nat) :
    (∃ start, Machine.start? text.toList firstLine = some start ∧
      ∀ m, Machine.Reaches tags start m →
        m.gathered.ToLast ∧
        (¬ m.AtEnd → ∃ m', m.step? tags = some m' ∧ m.Advances m') ∧
        (m.AtEnd → m.reading = read tags text firstLine) ∧
        ∃ stop, Machine.Reaches tags m stop ∧ stop.AtEnd) ∧
    ∀ chars start, chars[start]? = some '\x7b' →
      ∃ token stop, Token.inlineAt? chars start = some (token, stop) ∧
        start < stop ∧ stop ≤ chars.length := by
  constructor
  · obtain ⟨start, hstart, hreads⟩ := Machine.exists_start? tags text.toList firstLine
    refine ⟨start, hstart, ?_⟩
    intro m hreach
    have hm := hreads.of_reaches hreach
    refine ⟨?_, ?_, ?_, hm.exists_end⟩
    · obtain ⟨past, hpast, -⟩ := hm
      exact hpast ▸ Gathered.toLast_ofEvents past
    · intro hend
      obtain ⟨m', hstep, -, hadvances, -⟩ := hm.exists_step? hend
      exact ⟨m', hstep, hadvances⟩
    · intro hend
      rw [hm.reading_eq hend, read_eq_ofEvents]
  · intro chars start hopen
    obtain ⟨before, rest, rfl, rfl⟩ := Text.exists_split_of_getElem? hopen
    obtain ⟨token, hfirst, hinline⟩ := Token.exists_inlineAt? before rest false
    refine ⟨token, _, hinline, Nat.lt_add_of_pos_right hfirst.length_pos, ?_⟩
    rw [List.length_append]
    exact Nat.add_le_add_left hfirst.length_le before.length

/-- A comment with an accent in it is read to its end, and so is an inline tag after an accent. -/
theorem machine_reads_accent :
    ∃ start, Machine.start? "/** é */".toList 1 = some start ∧ ¬ start.AtEnd ∧
      (∃ m, start.step? .standard = some m ∧ start.Advances m) ∧
      (∃ stop, Machine.Reaches .standard start stop ∧ stop.AtEnd) ∧
      "é\x7b@link a\x7d".toList[1]? = some '\x7b' ∧
      ∃ token stop, Token.inlineAt? "é\x7b@link a\x7d".toList 1 = some (token, stop) ∧
        1 < stop ∧ stop ≤ 10 := by
  have hstart : Machine.start? "/** é */".toList 1 =
      some { number := 1, lines := ["é ".toList] } := rfl
  obtain ⟨⟨start, hstart', hreads⟩, hinline⟩ := machine_reads .standard "/** é */" 1
  cases hstart.symm.trans hstart'
  obtain ⟨-, hstep, -, hstop⟩ := hreads _ .refl
  have hend : ¬ Machine.AtEnd { number := 1, lines := ["é ".toList] } := nofun
  exact ⟨_, hstart', hend, hstep hend, hstop, rfl, hinline _ 1 rfl⟩

end PropDoc.Comment
