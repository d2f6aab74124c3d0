import PropDoc.Proofs.Comment.NamedBlock
import PropDoc.Proofs.List

/-!
# The lines that a reading speaks of

Whatever is found on a line bears the number of the line, so that it goes up as the lines are read,
and a fence that stays open is reported on the last of them. What blocks lack is reported after all
that, each time on the line of the block. Nothing else in a reading depends on the line on which the
comment starts.
-/

namespace PropDoc.Comment

/-- The same problem some lines further down. -/
def Diagnostic.raise (count : Nat) (diagnostic : Diagnostic) : Diagnostic :=
  { diagnostic with line := diagnostic.line + count }

/-- The same block some lines further down. -/
def Block.raise (count : Nat) (block : Block) : Block := { block with line := block.line + count }

/-- The same reading some lines further down. -/
def Reading.raise (count : Nat) (reading : Reading) : Reading where
  doc := { reading.doc with blocks := reading.doc.blocks.map (Block.raise count) }
  diagnostics := reading.diagnostics.map (Diagnostic.raise count)

namespace Event

/-! ### Consecutive lines -/

/-- The events of consecutive lines, apart from what there is to say at their end. -/
def ofInner (tags : TagSet) (inFence : Bool) (number : Nat) : List (List Char) → List Event
  | [] => []
  | line :: lines =>
    (if isFence line || inFence then [.text line] else ofLine tags number line) ++
      ofInner tags (inFence ^^ isFence line) (number + 1) lines

/-- Whether a fence is open after some lines. -/
def fenceAfter (inFence : Bool) (lines : List (List Char)) : Bool :=
  lines.foldl (fun inFence line ↦ inFence ^^ isFence line) inFence

/-- No fence is open after some lines exactly if every one that was opened is closed. -/
theorem fenceAfter_eq_false_iff (inFence : Bool) (lines : List (List Char)) :
    fenceAfter inFence lines = false ↔ (Even (lines.countP isFence) ↔ inFence = false) := by
  induction lines generalizing inFence with
  | nil => simp [fenceAfter]
  | cons line lines ih =>
    have hstep : fenceAfter inFence (line :: lines) = fenceAfter (inFence ^^ isFence line) lines :=
      rfl
    rw [hstep, ih]
    cases hfence : isFence line with
    | true => cases inFence <;> simp [hfence, Nat.even_add_one]
    | false => simp [hfence]

/-- Lines after others are read with the fence that those leave open. -/
theorem ofInner_append (tags : TagSet) (inFence : Bool) (number : Nat)
    (first second : List (List Char)) :
    ofInner tags inFence number (first ++ second) =
      ofInner tags inFence number first ++
        ofInner tags (fenceAfter inFence first) (number + first.length) second := by
  induction first generalizing inFence number with
  | nil => rfl
  | cons line first ih =>
    rw [List.cons_append, ofInner, ih, ofInner, List.append_assoc, List.length_cons,
      Nat.add_assoc number, Nat.add_comm 1]
    rfl

/-- A fence that stays open is reported after all else, on the last line. -/
theorem ofLines_eq_ofInner (tags : TagSet) (inFence : Bool) (number : Nat)
    (lines : List (List Char)) :
    ofLines tags inFence number lines = ofInner tags inFence number lines ++
      if fenceAfter inFence lines then [.problem ⟨.openFence, number + lines.length - 1⟩]
      else [] := by
  induction lines generalizing inFence number with
  | nil => rfl
  | cons line lines ih =>
    have hstep : fenceAfter inFence (line :: lines) = fenceAfter (inFence ^^ isFence line) lines :=
      rfl
    rw [ofLines, ofInner, hstep, List.length_cons, ← Nat.add_assoc, Nat.add_right_comm]
    cases hfence : isFence line <;> cases inFence <;> simp [ih]

/-- Lines after others are read with the fence that those leave open, and to their end. -/
theorem ofLines_append (tags : TagSet) (inFence : Bool) (number : Nat)
    (first second : List (List Char)) :
    ofLines tags inFence number (first ++ second) =
      ofInner tags inFence number first ++
        ofLines tags (fenceAfter inFence first) (number + first.length) second := by
  have hfence : fenceAfter inFence (first ++ second) =
      fenceAfter (fenceAfter inFence first) second := List.foldl_append
  rw [ofLines_eq_ofInner, ofInner_append, ofLines_eq_ofInner, hfence, List.length_append,
    Nat.add_assoc number, List.append_assoc]

/-! ### Lines of events -/

/-- The line on which a block opens or a problem lies. -/
def line? : Event → Option Nat
  | opens _ _ line => some line
  | problem diagnostic => some diagnostic.line
  | _ => none

/-- What an event says of a line is not below what another says. -/
def NotAfter (first second : Event) : Prop :=
  ∀ line ∈ first.line?, ∀ line' ∈ second.line?, line ≤ line'

private theorem eq_number_of_mark? {number : Nat} {meaning : Meaning} {event : Event}
    (h : meaning.mark? number = some event) : ∀ found ∈ event.line?, found = number := by
  intro found hfound
  cases meaning with
  | text => cases h
  | modifier =>
    cases h
    cases hfound
  | flawed | opens =>
    cases h
    cases hfound
    rfl

/-- What is found on a line bears its number. -/
theorem eq_number_of_mem_ofLine {tags : TagSet} {number : Nat} {line : List Char} {event : Event}
    (h : event ∈ ofLine tags number line) : ∀ found ∈ event.line?, found = number := by
  intro found hfound
  have hmark : event ∈ marks (ofLine tags number line) := by
    rw [mem_marks_iff]
    refine ⟨h, ?_⟩
    cases event with
    | text => cases hfound
    | _ => rfl
  rw [marks_ofLine, List.mem_filterMap] at hmark
  obtain ⟨token, -, htoken⟩ := hmark
  exact eq_number_of_mark? htoken found hfound

/-- What is found on consecutive lines bears the number of one of them. -/
theorem line_of_mem_ofInner {tags : TagSet} {inFence : Bool} {number : Nat}
    {lines : List (List Char)} {event : Event} (h : event ∈ ofInner tags inFence number lines) :
    ∀ found ∈ event.line?, number ≤ found ∧ found < number + lines.length := by
  intro found hfound
  induction lines generalizing inFence number with
  | nil => cases h
  | cons line lines ih =>
    rw [ofInner, List.mem_append] at h
    rw [List.length_cons]
    rcases h with hline | hrest
    · split at hline
      · cases List.mem_singleton.mp hline
        cases hfound
      · have heq := eq_number_of_mem_ofLine hline found hfound
        omega
    · have hbounds := ih hrest
      omega

/-- The numbers of lines go up in the events of consecutive lines. -/
theorem pairwise_ofInner (tags : TagSet) (inFence : Bool) (number : Nat)
    (lines : List (List Char)) : (ofInner tags inFence number lines).Pairwise NotAfter := by
  induction lines generalizing inFence number with
  | nil => exact .nil
  | cons line lines ih =>
    rw [ofInner, List.pairwise_append]
    refine ⟨?_, ih _ _, ?_⟩
    · split
      · exact List.pairwise_singleton _ _
      · refine List.pairwise_of_forall_mem_list ?_
        intro first hfirst second hsecond found hfound found' hfound'
        rw [eq_number_of_mem_ofLine hfirst found hfound,
          eq_number_of_mem_ofLine hsecond found' hfound']
    · intro first hfirst second hsecond found hfound found' hfound'
      have hlater := line_of_mem_ofInner hsecond found' hfound'
      split at hfirst
      · cases List.mem_singleton.mp hfirst
        cases hfound
      · have heq := eq_number_of_mem_ofLine hfirst found hfound
        omega

/-- What is wrong on consecutive lines is wrong with their tokens. -/
theorem concernsToken_of_mem_ofInner {tags : TagSet} {inFence : Bool} {number : Nat}
    {lines : List (List Char)} {diagnostic : Diagnostic}
    (h : problem diagnostic ∈ ofInner tags inFence number lines) :
    diagnostic.problem.concernsToken = true := by
  induction lines generalizing inFence number with
  | nil => cases h
  | cons line lines ih =>
    rw [ofInner, List.mem_append] at h
    rcases h with hline | hrest
    · split at hline
      · cases List.mem_singleton.mp hline
      · exact concernsToken_of_mem_ofLine hline
    · exact ih hrest

private theorem line_mem_of_diagnostic? {event : Event} {diagnostic : Diagnostic}
    (h : event.diagnostic? = some diagnostic) : diagnostic.line ∈ event.line? := by
  cases event <;> cases h
  rfl

/-- The line of the block that an event opens. -/
def openedLine? (event : Event) : Option Nat := event.opening?.map (·.2.2)

private theorem line_mem_of_openedLine? {event : Event} {line : Nat}
    (h : event.openedLine? = some line) : line ∈ event.line? := by
  cases event <;> cases h
  rfl

/-- The marks of a line of the given number. Inside a fence there are none. -/
def lineMarks (tags : TagSet) (inFence : Bool) (number : Nat) (line : List Char) : List Event :=
  if isFence line || inFence then [] else (Token.ofLine line).filterMap (Token.mark? tags number)

private theorem filter_filterMap_eq_nil {α : Type} {f : Event → Option α} {lineOf : α → Nat}
    (hline : ∀ event item, f event = some item → lineOf item ∈ event.line?)
    {events : List Event} {number : Nat} (h : ∀ event ∈ events, number ∉ event.line?) :
    (events.filterMap f).filter (fun item ↦ lineOf item == number) = [] := by
  rw [List.filter_eq_nil_iff]
  intro item hitem
  obtain ⟨event, hevent, hfound⟩ := List.mem_filterMap.mp hitem
  rw [beq_iff_eq]
  rintro rfl
  exact h event hevent (hline event item hfound)

/-- What is gathered from the marks of some lines, and bears the number of one of them, comes from
the marks of that line. -/
theorem filter_filterMap_ofInner {α : Type} {f : Event → Option α} {lineOf : α → Nat}
    (htext : ∀ line, f (text line) = none)
    (hline : ∀ event item, f event = some item → lineOf item ∈ event.line?) (tags : TagSet)
    (inFence : Bool) (number : Nat) (before : List (List Char)) (line : List Char)
    (after : List (List Char)) :
    ((ofInner tags inFence number (before ++ line :: after)).filterMap f).filter
        (fun item ↦ lineOf item == number + before.length) =
      (lineMarks tags (fenceAfter inFence before) (number + before.length) line).filterMap f := by
  have hbefore : ((ofInner tags inFence number before).filterMap f).filter
      (fun item ↦ lineOf item == number + before.length) = [] := by
    refine filter_filterMap_eq_nil hline fun event hevent hnumber ↦ ?_
    have hbounds := line_of_mem_ofInner hevent _ hnumber
    omega
  have hafter : ((ofInner tags (fenceAfter inFence before ^^ isFence line)
      (number + before.length + 1) after).filterMap f).filter
      (fun item ↦ lineOf item == number + before.length) = [] := by
    refine filter_filterMap_eq_nil hline fun event hevent hnumber ↦ ?_
    have hbounds := line_of_mem_ofInner hevent _ hnumber
    omega
  rw [ofInner_append, ofInner, List.filterMap_append, List.filterMap_append, List.filter_append,
    List.filter_append, hbefore, hafter, List.nil_append, List.append_nil, lineMarks]
  split
  · simp [htext]
  · rw [← marks_ofLine, filterMap_marks htext, List.filter_eq_self]
    intro item hitem
    obtain ⟨event, hevent, hfound⟩ := List.mem_filterMap.mp hitem
    exact beq_iff_eq.mpr (eq_number_of_mem_ofLine hevent _ (hline event item hfound))

/-! ### Higher line numbers -/

/-- The same event some lines further down. -/
def raise (count : Nat) : Event → Event
  | text line => text line
  | opens tag binding line => opens tag binding (line + count)
  | modifier name => modifier name
  | problem diagnostic => problem (diagnostic.raise count)

private theorem ofMeanings_add (number count : Nat) (line : List Char) (meanings : List Meaning) :
    ofMeanings (number + count) line meanings =
      (ofMeanings number line meanings).map (raise count) := by
  fun_induction ofMeanings number line meanings with
  | case1 line => rfl
  | case2 line content rest ih => exact ih
  | case3 line flaw content rest ih => rw [ofMeanings, ih]; rfl
  | case4 line name rest ih => rw [ofMeanings, ih]; rfl
  | case5 line tag binding rest ih =>
    rw [ofMeanings, ih, List.map_append]
    split <;> rfl

private theorem ofInner_add (tags : TagSet) (inFence : Bool) (number count : Nat)
    (lines : List (List Char)) :
    ofInner tags inFence (number + count) lines =
      (ofInner tags inFence number lines).map (raise count) := by
  induction lines generalizing inFence number with
  | nil => rfl
  | cons line lines ih =>
    rw [ofInner, Nat.add_right_comm, ih, ofInner, List.map_append]
    refine congrArg (· ++ _) ?_
    split
    · rfl
    · exact ofMeanings_add number count [] _

/-- Lines that start further down have the same events further down. -/
theorem ofLines_add (tags : TagSet) (inFence : Bool) (number count : Nat)
    {lines : List (List Char)} (hne : lines ≠ []) :
    ofLines tags inFence (number + count) lines =
      (ofLines tags inFence number lines).map (raise count) := by
  have hlength : 0 < lines.length := List.length_pos_iff.mpr hne
  have hlast : number + count + lines.length - 1 = number + lines.length - 1 + count := by omega
  rw [ofLines_eq_ofInner, ofInner_add, hlast, ofLines_eq_ofInner, List.map_append]
  refine congrArg ((ofInner tags inFence number lines).map (raise count) ++ ·) ?_
  split <;> rfl

private theorem leadingText_map_raise (count : Nat) (events : List Event) :
    leadingText (events.map (raise count)) = leadingText events := by
  fun_induction leadingText events with
  | case1 | case2 => rfl
  | case3 line rest ih => exact congrArg (line :: ·) ih
  | case4 | case5 => assumption

private theorem filterMap_modifier?_map_raise (count : Nat) (events : List Event) :
    (events.map (raise count)).filterMap modifier? = events.filterMap modifier? := by
  rw [List.filterMap_map]
  refine List.filterMap_congr fun event _ ↦ ?_
  cases event <;> rfl

private theorem filterMap_diagnostic?_map_raise (count : Nat) (events : List Event) :
    (events.map (raise count)).filterMap diagnostic? =
      (events.filterMap diagnostic?).map (Diagnostic.raise count) := by
  rw [List.filterMap_map, List.map_filterMap]
  refine List.filterMap_congr fun event _ ↦ ?_
  cases event <;> rfl

end Event

namespace Block

private theorem ofEvents_map_raise (count : Nat) (events : List Event) :
    ofEvents (events.map (Event.raise count)) = (ofEvents events).map (raise count) := by
  fun_induction ofEvents events with
  | case1 => rfl
  | case2 tag binding line rest ih =>
    rw [List.map_cons, Event.raise, ofEvents, ih, Event.leadingText_map_raise]
    rfl
  | case3 | case4 | case5 => assumption

private theorem settle_raise (count : Nat) (block : Block) :
    (block.raise count).settle = block.settle.raise count := by
  have hbinding : (block.raise count).binding = block.binding := rfl
  have hread : (block.raise count).readNamed = block.readNamed := rfl
  rw [settle, settle, hbinding, hread]
  cases block.binding.isNamed with
  | false => rfl
  | true => cases block.readNamed <;> rfl

private theorem diagnostic?_raise (count : Nat) (block : Block) :
    (block.raise count).diagnostic? = block.diagnostic?.map (Diagnostic.raise count) := by
  have hbinding : (block.raise count).binding = block.binding := rfl
  have hread : (block.raise count).readNamed = block.readNamed := rfl
  rw [diagnostic?, diagnostic?, hbinding, hread]
  cases block.binding.isNamed with
  | false => rfl
  | true => cases block.readNamed <;> rfl

end Block

private theorem Reading.ofEvents_map_raise (count : Nat) (events : List Event) :
    ofEvents (events.map (Event.raise count)) = (ofEvents events).raise count := by
  have hblocks : ((Block.ofEvents events).map (Block.raise count)).map Block.settle =
      ((Block.ofEvents events).map Block.settle).map (Block.raise count) := by
    rw [List.map_map, List.map_map]
    exact List.map_congr_left fun block _ ↦ block.settle_raise count
  have hdiagnostics : ((Block.ofEvents events).map (Block.raise count)).filterMap
      Block.diagnostic? =
        ((Block.ofEvents events).filterMap Block.diagnostic?).map (Diagnostic.raise count) := by
    rw [List.filterMap_map, List.map_filterMap]
    exact List.filterMap_congr fun block _ ↦ block.diagnostic?_raise count
  simp only [ofEvents, raise, Event.leadingText_map_raise, Event.filterMap_modifier?_map_raise,
    Event.filterMap_diagnostic?_map_raise, Block.ofEvents_map_raise, hblocks, hdiagnostics,
    List.map_append]

/-! ### Comments -/

/-- The events of a comment that starts on a given line. -/
def Event.ofComment (tags : TagSet) (text : List Char) (firstLine : Nat) : List Event :=
  match body? text with
  | none => [.problem ⟨.missingOpening, firstLine⟩]
  | some body => ofLines tags false firstLine (bodyLines body)

/-- What is read of a comment is gathered from its events. -/
theorem read_eq_ofEvents (tags : TagSet) (text : String) (firstLine : Nat) :
    read tags text firstLine = Reading.ofEvents (Event.ofComment tags text.toList firstLine) := by
  rw [read, Event.ofComment]
  cases body? text.toList <;> rfl

private theorem bodyLines_ne_nil (body : List Char) : bodyLines body ≠ [] := by
  simp [bodyLines]

/-- A comment that starts some lines further down reads the same, with all its lines as much further
down. -/
theorem read_add (tags : TagSet) (text : String) (firstLine count : Nat) :
    read tags text (firstLine + count) = (read tags text firstLine).raise count := by
  have hevents : Event.ofComment tags text.toList (firstLine + count) =
      (Event.ofComment tags text.toList firstLine).map (Event.raise count) := by
    unfold Event.ofComment
    cases body? text.toList with
    | none => rfl
    | some body => exact Event.ofLines_add tags false firstLine count (bodyLines_ne_nil body)
  rw [read_eq_ofEvents, hevents, Reading.ofEvents_map_raise, read_eq_ofEvents]

private theorem length_bodyLines (body : List Char) :
    (bodyLines body).length = body.count '\n' + 1 := by
  rw [bodyLines, List.length_map, length_splitOn]

private theorem count_trim_of_body? {text body : List Char} (h : body? text = some body) :
    (Text.trim text).count '\n' = body.count '\n' := by
  rw [(body?_eq_some_iff text body).mp h]
  simp [List.count_append]

private theorem count_trim_le (text : List Char) (c : Char) :
    (Text.trim text).count c ≤ text.count c :=
  (Text.trim_sublist text).count_le c

/-- The events of a framed comment are those of its lines, and a fence that stays open is reported
on the line of the closing delimiter. -/
theorem Event.ofComment_of_body? {text body : List Char} (h : body? text = some body)
    (tags : TagSet) (firstLine : Nat) :
    ofComment tags text firstLine = ofInner tags false firstLine (innerLines text) ++
      if Even ((innerLines text).countP isFence) then []
      else [.problem ⟨.openFence, firstLine + (Text.trim text).count '\n'⟩] := by
  have hfence : fenceAfter false (bodyLines body) = true ↔
      ¬ Even ((bodyLines body).countP isFence) := by
    rw [← Bool.not_eq_false, fenceAfter_eq_false_iff]
    simp
  rw [ofComment, h, innerLines_of_body?_eq_some h, count_trim_of_body? h]
  dsimp only
  rw [ofLines_eq_ofInner, length_bodyLines]
  simp only [hfence, ite_not]
  rfl

/-- What is found in a comment lies between its first line and the line of its closing delimiter. -/
theorem Event.line_of_mem_ofComment {tags : TagSet} {text : List Char} {firstLine : Nat}
    {event : Event} (h : event ∈ ofComment tags text firstLine) :
    ∀ found ∈ event.line?, firstLine ≤ found ∧ found ≤ firstLine + text.count '\n' := by
  intro found hfound
  have hcount := count_trim_le text '\n'
  cases hbody : body? text with
  | none =>
    rw [ofComment, hbody] at h
    cases List.mem_singleton.mp h
    cases hfound
    exact ⟨Nat.le_refl _, Nat.le_add_right _ _⟩
  | some body =>
    rw [ofComment_of_body? hbody, List.mem_append] at h
    rcases h with hinner | hfence
    · have hbounds := line_of_mem_ofInner hinner found hfound
      rw [innerLines_of_body?_eq_some hbody, length_bodyLines, ← count_trim_of_body? hbody]
        at hbounds
      omega
    · split at hfence
      · cases hfence
      · cases List.mem_singleton.mp hfence
        cases hfound
        dsimp only
        omega

/-- The lines of what is found in a comment go up. -/
theorem Event.pairwise_ofComment (tags : TagSet) (text : List Char) (firstLine : Nat) :
    (ofComment tags text firstLine).Pairwise NotAfter := by
  cases hbody : body? text with
  | none =>
    rw [ofComment, hbody]
    exact List.pairwise_singleton _ _
  | some body =>
    rw [ofComment_of_body? hbody, List.pairwise_append]
    refine ⟨pairwise_ofInner .., by split <;> simp, ?_⟩
    intro first hfirst last hlast found hfound found' hfound'
    have hbounds := line_of_mem_ofInner hfirst found hfound
    rw [innerLines_of_body?_eq_some hbody, length_bodyLines, ← count_trim_of_body? hbody]
      at hbounds
    split at hlast
    · cases hlast
    · cases List.mem_singleton.mp hlast
      cases hfound'
      dsimp only
      omega

-- What a block lacks is reported on its line. It is no token that is wrong then.
private theorem Block.eq_of_nameReport? {nameless : List Char → Prop} [DecidablePred nameless]
    {block : Block} {diagnostic : Diagnostic}
    (h : block.nameReport? nameless = some diagnostic) :
    diagnostic.line = block.line ∧ diagnostic.problem.concernsToken = false := by
  unfold nameReport? at h
  split at h
  · cases h
    exact ⟨rfl, by dsimp only; split <;> rfl⟩
  · cases h

namespace Reading

private theorem map_line_blocks (events : List Event) :
    (ofEvents events).doc.blocks.map Block.line = events.filterMap Event.openedLine? := by
  have hheads := congrArg (List.map (·.2.2)) (map_head_blocks_ofEvents events)
  rwa [Event.filterMap_marks fun _ ↦ rfl, List.map_map, List.map_filterMap] at hheads

/-- What is reported about a comment is what is wrong on its lines, then what its blocks lack. -/
theorem diagnostics_ofEvents (events : List Event) :
    (ofEvents events).diagnostics = events.filterMap Event.diagnostic? ++
      (ofEvents events).doc.blocks.filterMap (Block.nameReport? (· = [])) := by
  rw [ofEvents]
  dsimp only
  rw [List.filterMap_map]
  exact congrArg (_ ++ ·) (List.filterMap_congr fun block _ ↦ block.diagnostic?_eq)

/-- Blocks and what is reported about a comment lie between its first line and its last. -/
theorem line_of_mem_read (tags : TagSet) (text : String) (firstLine : Nat) :
    (∀ block ∈ (read tags text firstLine).doc.blocks,
      firstLine ≤ block.line ∧ block.line ≤ firstLine + text.toList.count '\n') ∧
    ∀ diagnostic ∈ (read tags text firstLine).diagnostics,
      firstLine ≤ diagnostic.line ∧ diagnostic.line ≤ firstLine + text.toList.count '\n' := by
  rw [read_eq_ofEvents]
  generalize hevents : Event.ofComment tags text.toList firstLine = events
  have hblocks : ∀ block ∈ (ofEvents events).doc.blocks,
      firstLine ≤ block.line ∧ block.line ≤ firstLine + text.toList.count '\n' := by
    intro block hblock
    have hline : block.line ∈ (ofEvents events).doc.blocks.map Block.line :=
      List.mem_map_of_mem hblock
    rw [map_line_blocks, List.mem_filterMap] at hline
    obtain ⟨event, hevent, hopened⟩ := hline
    rw [← hevents] at hevent
    exact Event.line_of_mem_ofComment hevent _ (Event.line_mem_of_openedLine? hopened)
  refine ⟨hblocks, ?_⟩
  intro diagnostic hdiagnostic
  rw [diagnostics_ofEvents, List.mem_append, List.mem_filterMap, List.mem_filterMap] at hdiagnostic
  rcases hdiagnostic with ⟨event, hevent, hfound⟩ | ⟨block, hblock, hfound⟩
  · rw [← hevents] at hevent
    exact Event.line_of_mem_ofComment hevent _ (Event.line_mem_of_diagnostic? hfound)
  · rw [(Block.eq_of_nameReport? hfound).1]
    exact hblocks block hblock

/-- The lines of a reading are in their places: all of them lie in the comment, those of the blocks
go up, and what is reported is, with lines that go up, what is wrong on the lines, a fence that is
open on the last one, and then what the blocks lack, each time on the line of the block. The blocks
and the wrong tokens with the number of a line are those of that line. -/
structure InPlace (reading : Reading) (tags : TagSet) (text : List Char) (firstLine : Nat) :
    Prop where
  diagnostics : ∀ diagnostic ∈ reading.diagnostics,
    firstLine ≤ diagnostic.line ∧ diagnostic.line ≤ firstLine + text.count '\n'
  blocks : ∀ block ∈ reading.doc.blocks,
    firstLine ≤ block.line ∧ block.line ≤ firstLine + text.count '\n'
  blocksGoUp : (reading.doc.blocks.map Block.line).Pairwise (· ≤ ·)
  reported : ∃ ofLines openFence : List Diagnostic,
    reading.diagnostics = ofLines ++ openFence ++
      reading.doc.blocks.filterMap (Block.nameReport? (· = [])) ∧
    (∀ diagnostic ∈ ofLines, diagnostic.problem.concernsToken = true) ∧
    openFence = (if Even ((innerLines text).countP Event.isFence) then []
      else [⟨.openFence, firstLine + (Text.trim text).count '\n'⟩]) ∧
    ((ofLines ++ openFence).map Diagnostic.line).Pairwise (· ≤ ·)
  exact : ∀ before line after, innerLines text = before ++ line :: after →
    let found :=
      Event.lineMarks tags (Event.fenceAfter false before) (firstLine + before.length) line
    (reading.doc.blocks.filter (·.line == firstLine + before.length)).map Block.head =
        found.filterMap Event.opening? ∧
      (reading.diagnostics.filter (·.problem.concernsToken)).filter
        (·.line == firstLine + before.length) = found.filterMap Event.diagnostic?

section

variable {text body : List Char} (hbody : body? text = some body) (tags : TagSet) (firstLine : Nat)

include hbody

private theorem filterMap_diagnostic?_ofComment :
    (Event.ofComment tags text firstLine).filterMap Event.diagnostic? =
      (Event.ofInner tags false firstLine (innerLines text)).filterMap Event.diagnostic? ++
        if Even ((innerLines text).countP Event.isFence) then []
        else [⟨.openFence, firstLine + (Text.trim text).count '\n'⟩] := by
  rw [Event.ofComment_of_body? hbody, List.filterMap_append]
  split <;> rfl

private theorem map_head_blocks_ofComment :
    (ofEvents (Event.ofComment tags text firstLine)).doc.blocks.map Block.head =
      (Event.ofInner tags false firstLine (innerLines text)).filterMap Event.opening? := by
  have hfence : (if Even ((innerLines text).countP Event.isFence) then []
      else [Event.problem ⟨.openFence, firstLine + (Text.trim text).count '\n'⟩]).filterMap
        Event.opening? = [] := by
    split <;> rfl
  rw [map_head_blocks_ofEvents, Event.filterMap_marks fun _ ↦ rfl,
    Event.ofComment_of_body? hbody, List.filterMap_append, hfence, List.append_nil]

private theorem filter_concernsToken_ofComment :
    (ofEvents (Event.ofComment tags text firstLine)).diagnostics.filter (·.problem.concernsToken) =
      (Event.ofInner tags false firstLine (innerLines text)).filterMap Event.diagnostic? := by
  have hinner : ∀ diagnostic ∈
      (Event.ofInner tags false firstLine (innerLines text)).filterMap Event.diagnostic?,
      diagnostic.problem.concernsToken = true := by
    intro diagnostic hdiagnostic
    obtain ⟨event, hevent, heq⟩ := List.mem_filterMap.mp hdiagnostic
    cases event <;> cases heq
    exact Event.concernsToken_of_mem_ofInner hevent
  have hfence : (if Even ((innerLines text).countP Event.isFence) then []
      else [⟨.openFence, firstLine + (Text.trim text).count '\n'⟩]).filter
        (fun diagnostic : Diagnostic ↦ diagnostic.problem.concernsToken) = [] := by
    split <;> rfl
  rw [diagnostics_ofEvents, filterMap_diagnostic?_ofComment hbody, List.filter_append,
    List.filter_append, List.filter_eq_self.mpr hinner, hfence, List.append_nil,
    List.append_right_eq_self, List.filter_eq_nil_iff]
  intro diagnostic hdiagnostic
  obtain ⟨block, -, hblock⟩ := List.mem_filterMap.mp hdiagnostic
  simp [(Block.eq_of_nameReport? hblock).2]

end

/-- The lines of a framed comment's reading are in their places. -/
theorem inPlace_read {text : String} (h : Framed text.toList) (tags : TagSet) (firstLine : Nat) :
    (read tags text firstLine).InPlace tags text.toList firstLine := by
  obtain ⟨hblocks, hdiagnostics⟩ := line_of_mem_read tags text firstLine
  obtain ⟨body, htrim⟩ := (framed_iff _).mp h
  have hbody := (body?_eq_some_iff _ body).mpr htrim
  have hpairwise := Event.pairwise_ofComment tags text.toList firstLine
  have htokens := filter_concernsToken_ofComment hbody tags firstLine
  refine ⟨hdiagnostics, hblocks, ?_, ?_, ?_⟩
  · rw [read_eq_ofEvents, map_line_blocks, List.pairwise_filterMap]
    refine hpairwise.imp ?_
    intro first last hnot line hline line' hline'
    exact hnot line (Event.line_mem_of_openedLine? hline) line'
      (Event.line_mem_of_openedLine? hline')
  · have hfound := filterMap_diagnostic?_ofComment hbody tags firstLine
    refine ⟨(Event.ofInner tags false firstLine (innerLines text.toList)).filterMap
      Event.diagnostic?, _, ?_, ?_, rfl, ?_⟩
    · rw [read_eq_ofEvents, diagnostics_ofEvents, hfound]
    · intro diagnostic hdiagnostic
      rw [← htokens, List.mem_filter] at hdiagnostic
      exact hdiagnostic.2
    · rw [← hfound, List.pairwise_map, List.pairwise_filterMap]
      refine hpairwise.imp ?_
      intro first last hnot diagnostic hfirst diagnostic' hlast
      exact hnot _ (Event.line_mem_of_diagnostic? hfirst) _ (Event.line_mem_of_diagnostic? hlast)
  · intro before line after hsplit found
    rw [read_eq_ofEvents, htokens]
    constructor
    · have hheads : ((ofEvents (Event.ofComment tags text.toList firstLine)).doc.blocks.filter
          (·.line == firstLine + before.length)).map Block.head =
          ((ofEvents (Event.ofComment tags text.toList firstLine)).doc.blocks.map Block.head).filter
            (·.2.2 == firstLine + before.length) := by
        rw [List.filter_map]
        rfl
      rw [hheads, map_head_blocks_ofComment hbody, hsplit]
      exact Event.filter_filterMap_ofInner (fun _ ↦ rfl) (fun event head h ↦
        Event.line_mem_of_openedLine? (by rw [Event.openedLine?, h]; rfl)) ..
    · rw [hsplit]
      exact Event.filter_filterMap_ofInner (fun _ ↦ rfl)
        (fun event diagnostic ↦ Event.line_mem_of_diagnostic?) ..

end Reading

end PropDoc.Comment
