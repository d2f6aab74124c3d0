import PropDoc.Comment.Doc

/-!
# Comments apart from their text

The marks of a comment are the events other than lines of text: where blocks open, modifiers and
problems. They come from the tokens one by one. Which modifiers a comment has, which blocks and
which problems of its lines, depends on the marks alone; names and hyphens are missed only when the
text of a block is read.
-/

namespace PropDoc.Comment

/-- Whether a problem is that a block lacks a name or a hyphen. -/
def Problem.concernsName : Problem → Bool
  | .missingName _ | .missingHyphen _ => true
  | _ => false

/-- Whether a problem is that a token of a line is wrong. -/
def Problem.concernsToken : Problem → Bool
  | .missingOpening | .openFence | .missingName _ | .missingHyphen _ => false
  | _ => true

private theorem Problem.concernsName_of_concernsToken {problem : Problem}
    (h : problem.concernsToken = true) : problem.concernsName = false := by
  cases problem with
  | missingName | missingHyphen => cases h
  | _ => rfl

/-- What a meaning amounts to on a line of the given number, apart from its text. -/
def Meaning.mark? (number : Nat) : Meaning → Option Event
  | .text _ => none
  | .flawed flaw _ => some (.problem ⟨flaw, number⟩)
  | .modifier name => some (.modifier name)
  | .opens tag binding => some (.opens tag binding number)

/-- What a token amounts to under a tag set, apart from its text. -/
def Token.mark? (tags : TagSet) (number : Nat) (token : Token) : Option Event :=
  (token.meaning tags).mark? number

/-- The tag, the binding and the line of a block. -/
def Block.head (block : Block) : String × Binding × Nat := (block.tag, block.binding, block.line)

namespace Event

/-- Whether an event is no line of text. -/
def isMark : Event → Bool
  | text _ => false
  | _ => true

/-- The events other than lines of text. -/
def marks (events : List Event) : List Event := events.filter isMark

/-- The tag, the binding and the line of the block that an event opens. -/
def opening? : Event → Option (String × Binding × Nat)
  | opens tag binding line => some (tag, binding, line)
  | _ => none

/-! ### Marks of lines -/

@[simp] theorem marks_text (line : List Char) (events : List Event) :
    marks (text line :: events) = marks events := rfl

@[simp] theorem marks_append (first second : List Event) :
    marks (first ++ second) = marks first ++ marks second :=
  List.filter_append ..

/-- The marks of a line are those of its meanings, whatever its text. -/
theorem marks_ofMeanings (number : Nat) (line : List Char) (meanings : List Meaning) :
    marks (ofMeanings number line meanings) = meanings.filterMap (Meaning.mark? number) := by
  fun_induction ofMeanings number line meanings with
  | case1 => rfl
  | case2 line content rest ih => exact ih
  | case3 line flaw content rest ih => exact congrArg (problem ⟨flaw, number⟩ :: ·) ih
  | case4 line name rest ih => exact congrArg (modifier name :: ·) ih
  | case5 line tag binding rest ih =>
    have hbefore : marks (if Text.allBlank line then [] else [text line]) = [] := by
      split <;> rfl
    rw [marks_append, hbefore, List.nil_append]
    exact congrArg (opens tag binding number :: ·) ih

/-- The marks of a line are those of its tokens. -/
theorem marks_ofLine (tags : TagSet) (number : Nat) (line : List Char) :
    marks (ofLine tags number line) = (Token.ofLine line).filterMap (Token.mark? tags number) := by
  rw [ofLine, marks_ofMeanings, List.filterMap_map]
  rfl

/-- What is nothing for a text can be gathered from the marks. -/
theorem filterMap_marks {α : Type} {f : Event → Option α} (h : ∀ line, f (text line) = none)
    (events : List Event) : (marks events).filterMap f = events.filterMap f := by
  have hsame : (fun event ↦ if isMark event then f event else none) = f := by
    funext event
    cases event with
    | text line => exact (h line).symm
    | _ => rfl
  rw [marks, List.filterMap_filter, hsame]

/-- The marks are the events that are marks. -/
theorem mem_marks_iff (event : Event) (events : List Event) :
    event ∈ marks events ↔ event ∈ events ∧ event.isMark = true :=
  List.mem_filter

/-! ### Problems of lines -/

private theorem concernsToken_of_meaning {tags : TagSet} {token : Token} {flaw : Problem}
    {content : List Char} (h : token.meaning tags = .flawed flaw content) :
    flaw.concernsToken = true := by
  cases token with
  | inline name content =>
    simp only [Token.meaning] at h
    split at h
    · cases h
      rfl
    · split at h
      all_goals cases h
      all_goals rfl
  | tag name =>
    simp only [Token.meaning] at h
    split at h
    · cases h
      rfl
    · split at h
      all_goals cases h
      all_goals rfl
  | _ => cases h <;> rfl

/-- What is wrong on a line is wrong with one of its tokens. -/
theorem concernsToken_of_mem_ofLine {tags : TagSet} {number : Nat} {line : List Char}
    {diagnostic : Diagnostic} (h : problem diagnostic ∈ ofLine tags number line) :
    diagnostic.problem.concernsToken = true := by
  have hmark : problem diagnostic ∈ marks (ofLine tags number line) :=
    (mem_marks_iff _ _).mpr ⟨h, rfl⟩
  rw [marks_ofLine, List.mem_filterMap] at hmark
  obtain ⟨token, -, htoken⟩ := hmark
  unfold Token.mark? at htoken
  cases hmeaning : token.meaning tags with
  | flawed flaw content =>
    rw [hmeaning] at htoken
    cases htoken
    exact concernsToken_of_meaning hmeaning
  | _ =>
    rw [hmeaning] at htoken
    cases htoken

/-- The problems of lines do not concern names. -/
theorem concernsName_of_mem_ofLines {tags : TagSet} {inFence : Bool} {number : Nat}
    {lines : List (List Char)} {diagnostic : Diagnostic}
    (h : problem diagnostic ∈ ofLines tags inFence number lines) :
    diagnostic.problem.concernsName = false := by
  fun_induction ofLines tags inFence number lines with
  | case1 number =>
    cases List.mem_singleton.mp h
    rfl
  | case2 => cases h
  | case3 inFence number line lines _ ih => exact ih (by simpa using h)
  | case4 number line lines _ ih => exact ih (by simpa using h)
  | case5 inFence number line lines _ _ ih =>
    rcases List.mem_append.mp h with hline | hrest
    · exact Problem.concernsName_of_concernsToken (concernsToken_of_mem_ofLine hline)
    · exact ih hrest

end Event

/-! ### Readings -/

namespace Block

/-- Settling keeps the head of a block. -/
theorem settle_head (block : Block) : block.settle.head = block.head := by
  rw [settle_eq]
  rfl

/-- The heads of the blocks that some events open. -/
theorem map_head_ofEvents (events : List Event) :
    (ofEvents events).map head = events.filterMap Event.opening? := by
  fun_induction ofEvents events with
  | case1 => rfl
  | case2 tag binding line rest ih => exact congrArg ((tag, binding, line) :: ·) ih
  | case3 line rest ih => exact ih
  | case4 name rest ih => exact ih
  | case5 diagnostic rest ih => exact ih

private theorem concernsName_of_readNamed {block : Block} {problem : Problem}
    (h : block.readNamed = .error problem) : problem.concernsName = true := by
  unfold readNamed at h
  split at h <;> split at h
  all_goals cases h
  all_goals rfl

/-- What is wrong with a block as a whole concerns its name. -/
theorem concernsName_of_diagnostic? {block : Block} {diagnostic : Diagnostic}
    (h : block.diagnostic? = some diagnostic) : diagnostic.problem.concernsName = true := by
  unfold diagnostic? at h
  split at h
  · split at h
    · cases h
    · next problem hread =>
      cases h
      exact concernsName_of_readNamed hread
  · cases h

end Block

namespace Reading

variable (events : List Event)

/-- The modifiers of a reading come from the marks. -/
theorem modifiers_ofEvents :
    (ofEvents events).doc.modifiers = (Event.marks events).filterMap Event.modifier? :=
  (Event.filterMap_marks (fun _ ↦ rfl) events).symm

/-- The heads of the blocks of a reading come from the marks. -/
theorem map_head_blocks_ofEvents :
    (ofEvents events).doc.blocks.map Block.head =
      (Event.marks events).filterMap Event.opening? := by
  rw [Event.filterMap_marks (fun _ ↦ rfl), ← Block.map_head_ofEvents, ofEvents, List.map_map]
  exact congrArg (List.map · _) (funext Block.settle_head)

/-- Apart from names, what is wrong with a comment is what is wrong with its lines. -/
theorem filter_diagnostics_ofEvents :
    (ofEvents events).diagnostics.filter (fun diagnostic ↦ !diagnostic.problem.concernsName) =
      ((Event.marks events).filterMap Event.diagnostic?).filter fun diagnostic ↦
        !diagnostic.problem.concernsName := by
  have hblocks : ((Block.ofEvents events).filterMap Block.diagnostic?).filter
      (fun diagnostic ↦ !diagnostic.problem.concernsName) = [] := by
    rw [List.filter_eq_nil_iff]
    intro diagnostic hmem
    obtain ⟨block, -, hblock⟩ := List.mem_filterMap.mp hmem
    simp [Block.concernsName_of_diagnostic? hblock]
  rw [ofEvents]
  dsimp only
  rw [List.filter_append, hblocks, List.append_nil, Event.filterMap_marks fun _ ↦ rfl]

end Reading

end PropDoc.Comment
